import ChunkedFile.Error
import ChunkedFile.Metrics

/-!
# Backends

What a reader needs of the world to get hold of chunks: calls to the backing store, pauses between
them, a clock, and a collector of metrics. A cancellation that fires during a call or a pause ends
it at once.
-/

namespace ChunkedFile

/-- A call to the backing store for one whole chunk. -/
structure Call where
  address : String
  /-- Whether the chunk is asked for on the proxied route. -/
  proxied : Bool
  deriving DecidableEq, Repr

/-- A backing store as a reader sees it, with effects in `m`. -/
structure Backend (m : Type → Type) where
  /-- Fetches a chunk; `Error.cancelled` where the cancellation came first. -/
  fetch : Call → m (Except Error ByteArray)
  /-- Waits for so many milliseconds; `false` where the cancellation came first. -/
  pause : Nat → m Bool
  /-- The time on the clock, in nanoseconds. -/
  now : m Nat
  /-- Counts an event. -/
  record : Event → m Unit

/-- A backend whose events are not counted. -/
def Backend.unmetered {m : Type → Type} [Monad m] (backend : Backend m) : Backend m :=
  { backend with record := fun _ => pure () }

end ChunkedFile
