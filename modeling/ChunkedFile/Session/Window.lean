/-!
# Windows

The part of a fetched chunk that is still to be handed out. Handing out moves a mark, so a chunk
that is read in small pieces is not copied with each.
-/

namespace ChunkedFile

/-- A chunk's bytes of which the first `used` are gone. -/
structure Window where
  bytes : ByteArray
  used : Nat
  used_le : used ≤ bytes.size

namespace Window

/-- The window on nothing. -/
def empty : Window := ⟨ByteArray.empty, 0, Nat.zero_le _⟩

/-- The window on a chunk without its first `skip` bytes. -/
def ofChunk (bytes : ByteArray) (skip : Nat) : Window :=
  ⟨bytes, min skip bytes.size, Nat.min_le_right _ _⟩

/-- The number of bytes still to be handed out. -/
def size (w : Window) : Nat := w.bytes.size - w.used

/-- The bytes still to be handed out. -/
def rest (w : Window) : ByteArray := w.bytes.extract w.used w.bytes.size

/-- Hands out the next bytes, at most `n` of them. -/
def take (w : Window) (n : Nat) : ByteArray × Window :=
  let used := min (w.used + n) w.bytes.size
  (w.bytes.extract w.used used, ⟨w.bytes, used, Nat.min_le_right _ _⟩)

end Window

end ChunkedFile
