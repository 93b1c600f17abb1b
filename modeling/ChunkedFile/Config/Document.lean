import ChunkedFile.Config
import ChunkedFile.Plan.Document

/-!
# Configurations as JSON documents

A record of all settings, each of which may be left out.
-/

namespace ChunkedFile.Config

open Json

/-- The names of the settings in order. -/
def fieldNames : List String := [
  "api_url", "remote_path", "part_size", "fragment_marker", "max_fetch_attempts",
  "retry_backoff_ms", "proxy_retry_backoff_ms", "fetch_timeout_secs", "verify_hash",
  "hash_algorithm", "must_proxy", "down_proxy_url", "sign_token"]

/-- The document of a configuration. -/
def toJson (config : Config) : Json :=
  record <| fieldNames.zip [
    ofString config.apiUrl,
    ofString config.remotePath,
    ofNat config.partSize.toNat,
    ofString config.fragmentMarker,
    ofNat config.maxFetchAttempts.toNat,
    ofNat config.retryBackoffMs.toNat,
    ofNat config.proxyRetryBackoffMs.toNat,
    ofNat config.fetchTimeoutSecs.toNat,
    .bool config.verifyHash,
    config.hashAlgorithm.toJson,
    .bool config.mustProxy,
    ofOption ofString config.downProxyUrl,
    ofOption ofString config.signToken]

/-- A configuration, whatever its settings. -/
def ofJson? (json : Json) : Option Config :=
  match json.fields? fieldNames with
  | some [apiUrl, remotePath, partSize, marker, attempts, backoff, proxyBackoff, fetchTimeout,
      verify, algorithm, mustProxy, downProxy, token] => do
    let standard : Config := {}
    return {
      apiUrl := ← optional? string? standard.apiUrl apiUrl
      remotePath := ← optional? string? standard.remotePath remotePath
      partSize := ← optional? size? standard.partSize partSize
      fragmentMarker := ← optional? string? standard.fragmentMarker marker
      maxFetchAttempts := ← optional? size? standard.maxFetchAttempts attempts
      retryBackoffMs := ← optional? size? standard.retryBackoffMs backoff
      proxyRetryBackoffMs := ← optional? size? standard.proxyRetryBackoffMs proxyBackoff
      fetchTimeoutSecs := ← optional? size? standard.fetchTimeoutSecs fetchTimeout
      verifyHash := ← optional? bool? standard.verifyHash verify
      hashAlgorithm := ← optional? Algorithm.ofJson? standard.hashAlgorithm algorithm
      mustProxy := ← optional? bool? standard.mustProxy mustProxy
      downProxyUrl := ← optional? (nullable? string?) standard.downProxyUrl downProxy
      signToken := ← optional? (nullable? string?) standard.signToken token }
  | _ => none

end ChunkedFile.Config
