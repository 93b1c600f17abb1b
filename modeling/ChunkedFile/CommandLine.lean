import ChunkedFile.Config.Resolve
import ChunkedFile.Config.Yaml
import ChunkedFile.Link
import ChunkedFile.Plan.Document

/-!
# The command line

Streams a range of a chunked file to the standard output. The arguments name a configuration, the
source of a plan and perhaps a range: a start with or without a length, where a negative length
reads to the end, or a range header. What the program asks of its surroundings is a `Host`.
-/

namespace ChunkedFile.CommandLine

/-- Why the program fails. -/
inductive Failure where
  | usage
  | configuration (path : String) (e : Error)
  | planUnreadable (path reason : String)
  | plan (e : Error)
  | start (text : String) (fault : Text.NumeralError)
  | length (text : String) (fault : Text.NumeralError)
  /-- A length follows a range header. -/
  | surplusLength
  /-- The range cannot be had. -/
  | range (e : Error)
  | output (reason : String)
  deriving DecidableEq, Repr

/-- The wording of a failure. -/
def Failure.message : Failure → String
  | .usage =>
    "usage: chunked-storage <config.yaml> <plan.json> [start [length] | bytes=<first>-<last>]"
  | .configuration path e => s!"Failed to load configuration from {path}: {e.message}"
  | .planUnreadable path reason => s!"Failed to read chunk plan {path}: {reason}"
  | .plan e => s!"Invalid chunk plan: {e.message}"
  | .start text fault => s!"Invalid start offset '{text}': {fault.message}"
  | .length text fault => s!"Invalid length '{text}': {fault.message}"
  | .surplusLength => "a bytes= range takes no length argument"
  | .range e => e.message
  | .output reason => reason

/-- A number with a sign, whose fault becomes a failure. -/
def readNumber (failure : Text.NumeralError → Failure) (text : String) : Except Failure Int :=
  (Text.readInt text.toList).mapError failure

/-- An error as the failure of a range. -/
def orRange {α : Type} (result : Except Error α) : Except Failure α := result.mapError .range

/-- The range that the arguments after the files ask for; arguments past the second are not looked
at. -/
def parseRange (args : List String) : Except Failure ByteRange :=
  match args with
  | [] => orRange (ByteRange.ofSigned 0 (-1))
  | first :: rest =>
    if "bytes=".toList.isPrefixOf first.toList then
      if rest.isEmpty then orRange (ByteRange.ofHeader first) else .error .surplusLength
    else do
      let start ← readNumber (.start first) first
      let length ← match rest with
        | [] => pure (-1)
        | text :: _ => readNumber (.length text) text
      orRange (ByteRange.ofSigned start length)

/-- What the program asks of its surroundings. -/
structure Host (m : Type → Type) where
  /-- The content of a file, or why it cannot be had. -/
  load : String → m (Except String ByteArray)
  /-- Adds to the standard output, unless for some reason that is not possible. -/
  write : ByteArray → m (Except String Unit)
  /-- Makes sure that all output has gone out. -/
  flush : m (Except String Unit)
  /-- Tells the user how the program gets on. -/
  log : String → m Unit
  /-- What has been counted so far. -/
  metrics : m Metrics
  /-- The store at an endpoint that is given so many seconds for each request. -/
  backend : Endpoint → Nat → Backend m

/-- The wording of a system's error number, which some systems give with a minus sign in 32 bits;
`details` is for numbers that are rare here. -/
def systemReason (code : UInt32) (details : String) : String :=
  let number := if code < 0x80000000 then code else 0 - code
  let text := match number with
    | 2 => "No such file or directory"
    | 13 => "Permission denied"
    | 20 => "Not a directory"
    | 21 => "Is a directory"
    | 36 => "File name too long"
    | _ => details
  s!"{text} (os error {number})"

/-- A file's content as a text. -/
def decodeText (content : Except String ByteArray) : Except String String := do
  match String.fromUTF8? (← content) with
  | some text => return text
  | none => throw "stream did not contain valid UTF-8"

/-- What is to be streamed from where. -/
structure Job where
  endpoint : Endpoint
  /-- The seconds that a request is given. -/
  patience : Nat
  link : Link
  range : ByteRange

/-- The job of a configuration, the text of a plan's source and the arguments for the range. -/
def Job.prepare (config : Config) (planText : String) (args : List String) :
    Except Failure Job := do
  let plan ← ((PlanSource.ofText planText).bind config.resolvePlan).mapError .plan
  let range ← parseRange args
  let link ← orRange (Link.ofPlan plan)
  return {
    endpoint := config.endpoint
    patience := config.fetchTimeoutSecs.toNat
    link := { link with
      policy := config.retryPolicy plan.proxied
      verify := config.verifyHash }
    range }

/-- What is told before streaming. -/
def Job.announcement (job : Job) : String :=
  s!"Streaming {job.range.effectiveLength job.link.size} of {job.link.size} bytes " ++
    s!"from offset {job.range.start} across {job.link.table.index.size} chunks"

/-- What is told after streaming. -/
def summary (metrics : Metrics) : String :=
  s!"Fetched {metrics.chunksFetched} chunks ({metrics.bytesFetched} bytes), " ++
    s!"delivered {metrics.bytesDelivered} bytes, {metrics.fetchRetries} retries"

/-- The size of the blocks that are written. -/
def blockSize : Nat := 262144

variable {m : Type → Type} [Monad m]

/-- Writes the rest of a stream to the output. -/
def copy (host : Host m) (backend : Backend m) (stream : RangeStream) :
    m (Except Failure Unit × RangeStream) := do
  let write := fun block => return (← host.write block).mapError Failure.output
  match ← stream.eachBlock backend .range write blockSize stream.enough with
  | (.ok (), stream) => return ((← host.flush).mapError .output, stream)
  | (.error failure, stream) => return (.error failure, stream)

/-- Streams what a job asks for. The range is released whatever happens while it is streamed, and a
failure of the streaming comes before one of the release. -/
def stream (host : Host m) (job : Job) : m (Except Failure Unit) := do
  let backend := host.backend job.endpoint job.patience
  host.log job.announcement
  match ← job.link.openRange backend job.range with
  | .error e => return .error (.range e)
  | .ok opened =>
    let (copied, stream) ← copy host backend opened.stream
    let (released, _) ← { opened with stream }.release backend
    host.log (summary (← host.metrics))
    return match copied with
      | .error failure => .error failure
      | .ok () => orRange released

/-- Runs the program on its arguments. -/
def run (host : Host m) (args : List String) : m (Except Failure Unit) := do
  match args with
  | configPath :: planPath :: rangeArgs =>
    if 2 < rangeArgs.length then return .error .usage
    match Config.ofFile (← host.load configPath) with
    | .error e => return .error (.configuration configPath e)
    | .ok config =>
      match decodeText (← host.load planPath) with
      | .error reason => return .error (.planUnreadable planPath reason)
      | .ok planText =>
        match Job.prepare config planText rangeArgs with
        | .error failure => return .error failure
        | .ok job => stream host job
  | _ => return .error .usage

end ChunkedFile.CommandLine
