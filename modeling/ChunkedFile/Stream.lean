import ChunkedFile.Session

/-!
# Range streams

A session cut off after a number of bytes. Besides single reads, a stream can be read to its end or
taken as a list of blocks. Every read that brings anything makes the unread rest of the file
smaller, so one read more than there are unread bytes is enough to come to the end.
-/

namespace ChunkedFile

namespace Session

/-- A bound on the bytes that a session can still hand out. -/
def unread (s : Session) : Nat :=
  s.window.size + s.table.index.bytesFrom s.cursor

end Session

/-- A session of which at most `remaining` further bytes are read. -/
structure RangeStream where
  session : Session
  /-- The number of bytes before the end of the range; `none` for the end of the file. -/
  remaining : Option Nat

namespace RangeStream

/-- The most bytes that a read into `n` bytes may take. -/
def limit (stream : RangeStream) (n : Nat) : Nat :=
  match stream.remaining with
  | some remaining => min n remaining
  | none => n

/-- The stream after `n` bytes of its range. -/
def consume (stream : RangeStream) (session : Session) (n : Nat) : RangeStream :=
  ⟨session, stream.remaining.map (· - n)⟩

variable {m : Type → Type} [Monad m]

/-- Reads at most `n` bytes; at the end of the range the session is not even asked. -/
def read (backend : Backend m) (stream : RangeStream) (n : Nat) :
    m (Except Error ByteArray × RangeStream) := do
  if stream.remaining = some 0 then return (.ok ByteArray.empty, stream)
  match ← stream.session.read backend (stream.limit n) with
  | (.ok bytes, session) => return (.ok bytes, stream.consume session bytes.size)
  | (.error e, session) => return (.error e, stream.consume session 0)

/-- Reads blocks of at most `size` bytes and passes each on to `take`, until the end of the range,
an error, or a block that is not taken; makes at most `fuel` reads. -/
def eachBlock {ε : Type} (backend : Backend m) (ofError : Error → ε)
    (take : ByteArray → m (Except ε Unit)) (size : Nat) :
    Nat → RangeStream → m (Except ε Unit × RangeStream)
  | 0, stream => return (.ok (), stream)
  | fuel + 1, stream => do
    match ← stream.read backend size with
    | (.error e, stream) => return (.error (ofError e), stream)
    | (.ok block, stream) =>
      if block.size = 0 then return (.ok (), stream)
      match ← take block with
      | .error e => return (.error e, stream)
      | .ok () => eachBlock backend ofError take size fuel stream

/-- A number of reads after which a stream is at its end or has failed. -/
def enough (stream : RangeStream) : Nat := stream.session.unread + 1

/-- The blocks of at most `size` bytes up to `fuel` of them, and the error that ended them. -/
def blocksFrom (backend : Backend m) (size : Nat) :
    Nat → RangeStream → m (List ByteArray × Option Error × RangeStream)
  | 0, stream => return ([], none, stream)
  | fuel + 1, stream => do
    match ← stream.read backend size with
    | (.error e, stream) => return ([], some e, stream)
    | (.ok block, stream) =>
      if block.size = 0 then return ([], none, stream)
      let (blocks, e, stream) ← blocksFrom backend size fuel stream
      return (block :: blocks, e, stream)

/-- The rest of the range in blocks of at most `size` bytes, where no block at all is taken for one
byte, and the error that ended it. -/
def blocks (backend : Backend m) (stream : RangeStream) (size : Nat) :
    m (List ByteArray × Option Error × RangeStream) :=
  blocksFrom backend (max size 1) stream.enough stream

/-- The size of the blocks in which a stream is read to its end. -/
def drainSize : Nat := 65536

/-- Reads the rest of the range. -/
def readToEnd (backend : Backend m) (stream : RangeStream) :
    m (Except Error ByteArray × RangeStream) := do
  let (blocks, e, stream) ← blocksFrom backend drainSize stream.enough stream
  return match e with
    | some e => (.error e, stream)
    | none => (.ok (blocks.foldl ByteArray.append ByteArray.empty), stream)

/-- The diagnostic form of a stream. -/
def inspect (stream : RangeStream) : String :=
  let remaining := match stream.remaining with
    | some n => s!"Some({n})"
    | none => "None"
  s!"RangeStream \x7b reader: {stream.session.inspect}, remaining: {remaining} \x7d"

end RangeStream

end ChunkedFile
