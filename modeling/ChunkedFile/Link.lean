import ChunkedFile.Range
import ChunkedFile.Release
import ChunkedFile.Stream

/-!
# Links

A chunked file against which ranges are opened, each in a session of its own. A range that covers
the whole file is checked against the file's digest when it is released.
-/

namespace ChunkedFile

/-- A chunked file that can be opened any number of times. -/
structure Link where
  table : ChunkTable
  policy : RetryPolicy
  proxied : Bool
  digest : Option ExpectedDigest
  /-- Whether whole files are checked against the digest. -/
  verify : Bool := true

/-- What an opened range holds on to. -/
inductive Held where
  /-- The session from which the range is read. -/
  | session
  deriving DecidableEq, Repr

/-- An opened range: its stream, and what is to be released when the stream is done with. -/
structure Opened where
  stream : RangeStream
  releases : ReleaseSet Held

namespace Link

/-- The link to a plan's file. -/
def ofPlan (plan : Plan) : Except Error Link := do
  let table ← ChunkTable.ofPlan plan
  return {
    table
    policy := .forRoute plan.proxied
    proxied := plan.proxied
    digest := plan.digest }

/-- The size of the file. -/
def size (link : Link) : Nat := link.table.total

/-- The length of a range where it ends before the file does. -/
def boundedLength (link : Link) (range : ByteRange) : Option Nat :=
  match range.length with
  | some length =>
    if link.size ≤ Size.add range.start.toNat length.toNat then none else some length.toNat
  | none => none

/-- The verifier for a range: only the whole file has a digest. -/
def verifierFor (link : Link) (range : ByteRange) : Except Error (Option Verifier) :=
  match link.digest with
  | some digest =>
    if link.verify ∧ range.start = 0 ∧ link.boundedLength range = none then
      (Verifier.ofHex digest.algorithm digest.hex).map some
    else .ok none
  | none => .ok none

/-- The session and the bound of a range. -/
def openStream (link : Link) (range : ByteRange) : Except Error RangeStream := do
  let session : Session := { table := link.table, policy := link.policy, proxied := link.proxied }
  let session ← session.skipTo range.start.toNat
  let verifier ← link.verifierFor range
  return ⟨{ session with verifier }, link.boundedLength range⟩

variable {m : Type → Type} [Monad m]

/-- Opens a range; a length past the end of the file reaches to the end. -/
def openRange (backend : Backend m) (link : Link) (range : ByteRange) :
    m (Except Error Opened) := do
  match link.openStream range with
  | .error e => return .error e
  | .ok stream =>
    backend.record .sessionOpened
    return .ok ⟨stream, ReleaseSet.add {} .session⟩

/-- The diagnostic form of a link. -/
def inspect (link : Link) : String :=
  s!"ChunkedLink \x7b chunks: {link.table.index.size}, size: {link.size}, " ++
    s!"needs_proxy: {link.proxied} \x7d"

end Link

namespace Opened

variable {m : Type → Type} [Monad m]

/-- Releases one thing that an opened range holds on to. -/
def free (backend : Backend m) : Held → StateT RangeStream m (Except Error Unit)
  | .session => fun stream => do
    let (verdict, session) ← stream.session.close backend
    return (verdict, { stream with session })

/-- Releases what an opened range holds on to. -/
def release (backend : Backend m) (opened : Opened) : m (Except Error Unit × Opened) := do
  let released := ReleaseSet.release fun held => StateT.lift (free backend held)
  let ((verdict, releases), stream) ← (released.run opened.releases).run opened.stream
  return (verdict, ⟨stream, releases⟩)

end Opened

end ChunkedFile
