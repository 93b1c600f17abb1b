import ChunkedFile.Size
import ChunkedFile.Text.Numeral
import ChunkedFile.Hash.Algorithm

/-!
# Errors

Everything that can go wrong between a listing and the bytes of a range. An error names its cause;
the wording of all causes is kept here, in one place. A backing store may also report a fault of
any class in words of its own.
-/

namespace ChunkedFile

/-- A fault of a configuration, or of a setting that one of its values would give. -/
inductive ConfigFault where
  | emptyMarker
  | zeroPartSize
  | unknownAlgorithm (name : String)
  | badDigest (algorithm : Algorithm) (given : String)
  | apiUrl (given : String)
  | remotePath (given : String)
  | partSize (given : UInt64)
  | fragmentMarker (given : String)
  | fetchAttempts (given : UInt64)
  | fetchTimeout
  /-- The configuration's text could not be had at all. -/
  | unreadable (reason : String)
  /-- The text is not a configuration. -/
  | malformed
  | reported (text : String)
  deriving DecidableEq, Repr

/-- The wording of a configuration fault. -/
def ConfigFault.message : ConfigFault → String
  | .emptyMarker => "fragment marker must not be empty"
  | .zeroPartSize => "part_size must be greater than 0"
  | .unknownAlgorithm name =>
    s!"Unknown hash algorithm '{name}', must be 'md5', 'sha1' or 'sha256'"
  | .badDigest algorithm given =>
    s!"Expected {algorithm.name} digest must be {algorithm.hexLength} hex characters, got '{given}'"
  | .apiUrl given => s!"api_url must start with http:// or https://, got '{given}'"
  | .remotePath given => s!"remote_path must be absolute, got '{given}'"
  | .partSize given => s!"part_size must be between 1MB and 10GB, got {given} bytes"
  | .fragmentMarker given =>
    s!"fragment_marker must be non-empty and must not contain '/', got '{given}'"
  | .fetchAttempts given => s!"max_fetch_attempts must be between 1 and 10, got {given}"
  | .fetchTimeout => "fetch_timeout_secs must be greater than 0"
  | .unreadable reason => s!"Failed to read config file: {reason}"
  | .malformed => "Failed to parse config file"
  | .reported text => text

/-- A range that no file, or not this file, can serve. -/
inductive RangeFault where
  | negativeStart (start : Int)
  /-- The last byte lies before the first. -/
  | reversed (first last : Nat)
  | beyondEnd (start total : Nat)
  /-- More bytes are to be skipped than the remaining chunks hold. -/
  | skipPastEnd (skip total : Nat)
  | reported (text : String)
  deriving DecidableEq, Repr

/-- The wording of a range fault. -/
def RangeFault.message : RangeFault → String
  | .negativeStart start => s!"start must not be negative, got {start}"
  | .reversed first last => s!"start ({first}) must be <= end ({last})"
  | .beyondEnd start total => s!"Range start {start} is beyond file size {total}"
  | .skipPastEnd skip total => s!"Skip runs {skip} bytes past the end of a {total} byte file"
  | .reported text => text

/-- A text or a plan that does not say what it should. -/
inductive ParseFault where
  /-- The sizes of a plan pass the greatest size at this chunk. -/
  | sizesOverflow (address : String) (size : Nat)
  /-- So many sizes have a sum past the greatest size. -/
  | sizesPastLimit (count : Nat)
  | addressCount (addresses sizes : Nat)
  | tooManyParts (total part parts : Nat)
  | partCount (total part needed recorded : Nat)
  | notListed (name directory : String)
  | rangeUnit (header : String)
  | rangeForm (range : String)
  | rangeStart (fault : Text.NumeralError)
  | rangeLast (fault : Text.NumeralError)
  | emptyAddress
  /-- The text is no JSON document of the expected shape. -/
  | malformed
  | reported (text : String)
  deriving DecidableEq, Repr

/-- The most parts or fragments a file may have. -/
def partLimit : Nat := 10000000

/-- The wording of a parse fault; a malformed document is not described further. -/
def ParseFault.message : ParseFault → String
  | .sizesOverflow address size => s!"chunk sizes overflow at {address} ({size} bytes)"
  | .sizesPastLimit count => s!"{count} chunk sizes add up past {Size.limit} bytes"
  | .addressCount addresses sizes => s!"{addresses} chunk addresses but {sizes} chunk sizes"
  | .tooManyParts total part parts =>
    s!"{total} bytes in {part} byte parts needs {parts} parts, limit is {partLimit}"
  | .partCount total part needed recorded =>
    s!"{total} bytes in {part} byte parts needs {needed} parts, {recorded} recorded"
  | .notListed name directory => s!"{name} not found in {directory}"
  | .rangeUnit header => s!"Range header must start with 'bytes=', got: {header}"
  | .rangeForm range => s!"Invalid range format, expected 'start-end', got: {range}"
  | .rangeStart fault => s!"Invalid start value: {fault.message}"
  | .rangeLast fault => s!"Invalid end value: {fault.message}"
  | .emptyAddress => "chunk address is empty"
  | .malformed => ""
  | .reported text => text

/-- What can go wrong in resolving, opening and reading a chunked file. -/
inductive Error where
  | config (fault : ConfigFault)
  /-- A chunk could not be had in so many attempts; `reason` is the last attempt's error. -/
  | fetchFailed (address : String) (status : Option Nat) (attempts : Nat) (reason : String)
  | sizeMismatch (index expected actual : Nat)
  | range (fault : RangeFault)
  | sessionClosed
  | integrity (expected actual : String)
  | collision (name : String)
  | cancelled
  | badStatus (status : Nat) (reason : String)
  | http (reason : String)
  | timeout (reason : String)
  | parse (fault : ParseFault)
  | io (reason : String)
  | internal (reason : String)
  deriving DecidableEq, Repr

namespace Error

/-- How an optional status is shown. -/
def statusText : Option Nat → String
  | none => "None"
  | some status => s!"Some({status})"

/-- The wording of an error. -/
def message : Error → String
  | .config fault => s!"Configuration error: {fault.message}"
  | .fetchFailed address status attempts reason =>
    s!"Failed to fetch chunk {address} after {attempts} attempts (status: {statusText status}): " ++
      reason
  | .sizeMismatch index expected actual =>
    s!"Chunk {index} has {actual} bytes, expected {expected}"
  | .range fault => s!"Invalid byte range: {fault.message}"
  | .sessionClosed => "Read on closed session"
  | .integrity expected actual => s!"Integrity check failed: expected {expected}, got {actual}"
  | .collision name => s!"Fragment group collides with existing entry: {name}"
  | .cancelled => "Operation cancelled"
  | .badStatus status reason => s!"Upstream returned {status}: {reason}"
  | .http reason => s!"HTTP error: {reason}"
  | .timeout reason => s!"Network timeout: {reason}"
  | .parse .malformed => "Parse error"
  | .parse fault => s!"Parse error: {fault.message}"
  | .io reason => s!"IO error: {reason}"
  | .internal reason => s!"Internal error: {reason}"

/-- Faults that may pass: those of the network and of a server that answered with a status. -/
def isTransient : Error → Bool
  | .badStatus .. | .http _ | .timeout _ | .io _ => true
  | _ => false

/-- The status with which a file server answers a request that failed this way. -/
def httpStatus : Error → Nat
  | .range _ => 416
  | .fetchFailed .. | .badStatus .. | .http _ | .sizeMismatch .. | .integrity .. => 502
  | .timeout _ => 504
  | .cancelled => 499
  | .parse _ => 400
  | .config _ | .sessionClosed | .collision _ | .io _ | .internal _ => 500

/-- The status that the backing store answered with, where one is known. -/
def storeStatus : Error → Option Nat
  | .badStatus status _ => some status
  | .fetchFailed _ status _ _ => status
  | _ => none

end Error

end ChunkedFile
