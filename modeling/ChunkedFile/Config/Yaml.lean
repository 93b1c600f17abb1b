import ChunkedFile.Config.Document
import ChunkedFile.Yaml.Value

/-!
# Configurations as YAML documents

A mapping from the names of settings to their values, each of which may be left out. What is read
is validated as well.
-/

namespace ChunkedFile.Config

open Yaml

/-- A configuration, whatever its settings. -/
def ofDocument? (document : Document) : Option Config :=
  let text := fun (s : Scalar) => some s.text
  match document.fields? fieldNames with
  | some [apiUrl, remotePath, partSize, marker, attempts, backoff, proxyBackoff, fetchTimeout,
      verify, algorithm, mustProxy, downProxy, token] => do
    let standard : Config := {}
    return {
      apiUrl := ← document.field? text standard.apiUrl apiUrl
      remotePath := ← document.field? text standard.remotePath remotePath
      partSize := ← document.field? Scalar.size? standard.partSize partSize
      fragmentMarker := ← document.field? text standard.fragmentMarker marker
      maxFetchAttempts := ← document.field? Scalar.size? standard.maxFetchAttempts attempts
      retryBackoffMs := ← document.field? Scalar.size? standard.retryBackoffMs backoff
      proxyRetryBackoffMs :=
        ← document.field? Scalar.size? standard.proxyRetryBackoffMs proxyBackoff
      fetchTimeoutSecs := ← document.field? Scalar.size? standard.fetchTimeoutSecs fetchTimeout
      verifyHash := ← document.field? Scalar.bool? standard.verifyHash verify
      hashAlgorithm :=
        ← document.field? (Scalar.choice? Algorithm.ofName?) standard.hashAlgorithm algorithm
      mustProxy := ← document.field? Scalar.bool? standard.mustProxy mustProxy
      downProxyUrl := ← document.field? Scalar.optional? standard.downProxyUrl downProxy
      signToken := ← document.field? Scalar.optional? standard.signToken token }
  | _ => none

/-- The valid configuration that a text describes. -/
def ofYaml (text : String) : Except Error Config :=
  match (Document.ofText? text).bind ofDocument? with
  | none => .error (.config .malformed)
  | some config => config.validate.map fun _ => config

/-- The valid configuration that a file describes, given what reading the file came to. -/
def ofFile (content : Except String ByteArray) : Except Error Config :=
  match content with
  | .error reason => .error (.config (.unreadable reason))
  | .ok bytes =>
    match String.fromUTF8? bytes with
    | none => .error (.config (.unreadable "stream did not contain valid UTF-8"))
    | some text => ofYaml text

end ChunkedFile.Config
