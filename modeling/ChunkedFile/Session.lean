import ChunkedFile.Fetch.Retry
import ChunkedFile.Hash.Verifier
import ChunkedFile.Session.Table
import ChunkedFile.Session.Window

/-!
# Reading sessions

A session hands out the bytes of a file in order, beginning at some offset. Chunks are fetched one
at a time and only when the bytes of the one before are all handed out. What a read does between
its effects is a function on sessions: `settle` moves to the chunk that the read needs, `accept`
takes in its bytes and `deliver` hands some of them out; a fetch stands between the first two. A
read that fails leaves the session as `settle` left it, so it can be tried again.
-/

namespace ChunkedFile

/-- A session on a file. -/
structure Session where
  table : ChunkTable
  policy : RetryPolicy := .direct
  proxied : Bool := false
  /-- What the bytes handed out are to be compared with when the session is closed. -/
  verifier : Option Verifier := none
  /-- The offset at which the session began. -/
  start : Nat := 0
  /-- The chunk to be fetched next. -/
  cursor : Nat := 0
  /-- The number of bytes still to be dropped before the first that is handed out. -/
  skip : Nat := 0
  /-- The number of bytes handed out. -/
  delivered : Nat := 0
  window : Window := .empty
  closed : Bool := false

/-- What a session has to do for its next byte. -/
inductive Need where
  /-- The skip runs past the last chunk. -/
  | overrun
  /-- The byte has been fetched. -/
  | buffered
  /-- There is no such byte. -/
  | ended
  /-- This chunk, of this size at this address, is to be fetched. -/
  | chunk (i size : Nat) (address : String)
  deriving DecidableEq, Repr

namespace Session

/-- The session that hands out a plan's file from its first byte. -/
def ofPlan (plan : Plan) : Except Error Session := do
  let table ← ChunkTable.ofPlan plan
  let verifier ← plan.digest.mapM fun digest => Verifier.ofHex digest.algorithm digest.hex
  return { table, policy := .forRoute plan.proxied, proxied := plan.proxied, verifier }

/-- The session placed at an offset of its file; the end is refused unless the file is empty. -/
def skipTo (s : Session) (start : Nat) : Except Error Session :=
  if 0 < start ∧ s.table.total ≤ start then
    .error (.range (.beyondEnd start s.table.total))
  else
    let (cursor, skip) := (s.table.index.locate start).getD (0, 0)
    .ok { s with start, cursor, skip }

/-- The offset of the next byte to be handed out, as a 64-bit word. -/
def position (s : Session) : UInt64 := UInt64.ofNat (s.start + s.delivered)

/-- The session past all chunks that need not be fetched for its next byte. -/
def settle (s : Session) : Session :=
  let (cursor, skip) := s.table.index.passSkipped s.cursor s.skip
  if s.window.size = 0 then { s with cursor := s.table.index.passEmpty cursor, skip }
  else { s with cursor, skip }

/-- What a settled session has to do for its next byte. -/
def need (s : Session) : Need :=
  match s.table.get? s.cursor with
  | none => if s.skip ≠ 0 then .overrun else if s.window.size = 0 then .ended else .buffered
  | some (size, address) => if s.window.size = 0 then .chunk s.cursor size address else .buffered

/-- Takes in the bytes fetched for chunk `i`, which has to have the recorded size. -/
def accept (s : Session) (i size : Nat) (bytes : ByteArray) : Except Error Session :=
  if bytes.size ≠ size then .error (.sizeMismatch i size bytes.size)
  else .ok { s with cursor := i + 1, skip := 0, window := .ofChunk bytes s.skip }

/-- Hands out the next fetched bytes, at most `n` of them. -/
def deliver (s : Session) (n : Nat) : ByteArray × Session :=
  let (piece, window) := s.window.take n
  (piece, { s with
    window
    verifier := s.verifier.map (·.update piece)
    delivered := s.delivered + piece.size })

/-- The closed session, and the verdict on the bytes handed out: they are compared with the digest
where they are the whole file. -/
def shut (s : Session) : Except Error Unit × Session :=
  let complete := s.start = 0 ∧ s.delivered = s.table.total
  let verdict := match s.verifier with
    | some verifier => if complete then verifier.verify else .ok ()
    | none => .ok ()
  (verdict, { s with closed := true, window := .empty, verifier := none })

variable {m : Type → Type} [Monad m]

/-- Hands out bytes and counts them. -/
def deliverCounted (backend : Backend m) (s : Session) (n : Nat) :
    m (Except Error ByteArray × Session) := do
  let (piece, s) := s.deliver n
  backend.record (.bytesDelivered piece.size)
  return (.ok piece, s)

/-- Reads at most `n` bytes: none only at the end of the file or where none are asked for. -/
def read (backend : Backend m) (s : Session) (n : Nat) : m (Except Error ByteArray × Session) :=
  if s.closed then pure (.error .sessionClosed, s)
  else if n = 0 then pure (.ok ByteArray.empty, s)
  else
    let s := s.settle
    match s.need with
    | .overrun => pure (.error (.range (.skipPastEnd s.skip s.table.total)), s)
    | .buffered => s.deliverCounted backend n
    | .ended => pure (.ok ByteArray.empty, s)
    | .chunk i size address => do
      match ← backend.fetchRetrying s.policy ⟨address, s.proxied⟩ with
      | .error e => return (.error e, s)
      | .ok bytes =>
        match s.accept i size bytes with
        | .error e => return (.error e, s)
        | .ok s => s.deliverCounted backend n

/-- Closes the session; only the first time has an effect. -/
def close (backend : Backend m) (s : Session) : m (Except Error Unit × Session) := do
  if s.closed then return (.ok (), s)
  let (verdict, s) := s.shut
  backend.record .sessionClosed
  if verdict matches .error _ then backend.record .integrityFailed
  return (verdict, s)

/-- The diagnostic form of a session. -/
def inspect (s : Session) : String :=
  s!"ChunkedRangeReader \x7b chunks: {s.table.index.size}, total_size: {s.table.total}, " ++
    s!"needs_proxy: {s.proxied}, retry_policy: {s.policy.inspect} \x7d"

end Session

end ChunkedFile
