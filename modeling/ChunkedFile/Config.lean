import ChunkedFile.Fetch.Endpoint
import ChunkedFile.Fetch.Policy
import ChunkedFile.Listing.Fragment

/-!
# Configurations

The settings of a connector to a backing store. Any settings can be written down; `Config.validate`
says whether they can be worked with, and names the first that cannot.
-/

namespace ChunkedFile

/-- The settings of a connector. -/
structure Config where
  /-- The URL of the API server. -/
  apiUrl : String := "http://127.0.0.1:5244"
  /-- The directory of the store in which all paths begin. -/
  remotePath : String := "/"
  /-- The size of the parts of a file that was cut uniformly. -/
  partSize : UInt64 := 52428800
  /-- The marker in the names of fragments. -/
  fragmentMarker : String := FragmentPattern.standardMarker
  /-- The most attempts to fetch one chunk. -/
  maxFetchAttempts : UInt64 := 3
  /-- The pause between attempts on the direct route, in milliseconds. -/
  retryBackoffMs : UInt64 := 1000
  /-- The pause between attempts on the proxied route, in milliseconds. -/
  proxyRetryBackoffMs : UInt64 := 500
  /-- The time after which a request is given up. -/
  fetchTimeoutSecs : UInt64 := 60
  /-- Whether files are checked against their recorded digests. -/
  verifyHash : Bool := true
  /-- The algorithm of digests that are recorded without one. -/
  hashAlgorithm : Algorithm := .sha1
  /-- Whether all chunks are fetched through the proxy. -/
  mustProxy : Bool := false
  /-- The URL, on the first line, before the paths of proxied downloads. -/
  downProxyUrl : Option String := none
  /-- The token that signs all URLs. -/
  signToken : Option String := none
  deriving DecidableEq, Repr

namespace Config

/-- The least part size, one mebibyte. -/
def minPartSize : UInt64 := 1048576

/-- The greatest part size, ten gibibytes. -/
def maxPartSize : UInt64 := 10737418240

/-- The first fault of a configuration. -/
def fault? (config : Config) : Option ConfigFault :=
  if !("http://".toList.isPrefixOf config.apiUrl.toList ||
      "https://".toList.isPrefixOf config.apiUrl.toList) then
    some (.apiUrl config.apiUrl)
  else if !(['/'].isPrefixOf config.remotePath.toList) then
    some (.remotePath config.remotePath)
  else if config.partSize < minPartSize || maxPartSize < config.partSize then
    some (.partSize config.partSize)
  else if config.fragmentMarker = "" || '/' ∈ config.fragmentMarker.toList then
    some (.fragmentMarker config.fragmentMarker)
  else if config.maxFetchAttempts = 0 || 10 < config.maxFetchAttempts then
    some (.fetchAttempts config.maxFetchAttempts)
  else if config.fetchTimeoutSecs = 0 then
    some .fetchTimeout
  else none

/-- Refuses a configuration with a fault. -/
def validate (config : Config) : Except Error Unit :=
  match config.fault? with
  | some fault => .error (.config fault)
  | none => .ok ()

/-- The retry policy of a route. -/
def retryPolicy (config : Config) (proxied : Bool) : RetryPolicy :=
  RetryPolicy.atLeastOnce config.maxFetchAttempts.toNat
    (if proxied then config.proxyRetryBackoffMs else config.retryBackoffMs).toNat

/-- The pattern of fragments. -/
def fragmentPattern (config : Config) : Except Error FragmentPattern :=
  FragmentPattern.ofMarker config.fragmentMarker

/-- The endpoint that chunks are downloaded from. -/
def endpoint (config : Config) : Endpoint :=
  let e := Endpoint.ofUrl config.apiUrl
  let e := config.downProxyUrl.elim e e.withDownProxy
  config.signToken.elim e e.withToken

/-- The address in the store of a path below the configured directory. -/
def remoteAddress (config : Config) (path : String) : String :=
  let base := Text.trimTrailingSlashes config.remotePath
  let path := Text.trimLeadingSlashes path
  if path = "" then if base = "" then "/" else base
  else base ++ "/" ++ path

end Config

end ChunkedFile
