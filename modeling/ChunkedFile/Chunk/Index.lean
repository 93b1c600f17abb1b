import ChunkedFile.Error

/-!
# The index of a file's chunks

An index lays the chunks of a file end to end: each has the position at which its bytes begin and
its size. Positions are held at the greatest size, so an index can be built for any recorded sizes;
`Index.ofSizes?` refuses those whose sum would not fit. A byte is located by binary search for the
first chunk that ends beyond it, which passes over empty chunks.
-/

namespace ChunkedFile

/-- The stretch of a file that one chunk holds. -/
structure Extent where
  /-- Where the chunk's bytes begin in the file. -/
  position : Nat
  /-- The number of bytes in the chunk. -/
  size : Nat
  deriving DecidableEq, Repr

namespace Extent

/-- The position after the last byte, held at the greatest size. -/
def stop (e : Extent) : Nat := Size.add e.position e.size

/-- Whether the byte at this offset of the file lies in the extent. -/
def contains (e : Extent) (offset : Nat) : Bool := e.position ≤ offset && offset < e.stop

end Extent

/-- Chunks laid end to end. -/
structure Index where
  /-- The chunks in file order. -/
  extents : Array Extent
  /-- The position after the last chunk. -/
  total : Nat
  deriving DecidableEq, Repr

namespace Index

/-- Lays one more chunk at the end. -/
def push (index : Index) (size : Nat) : Index where
  extents := index.extents.push ⟨index.total, size⟩
  total := Size.add index.total size

/-- The index of no chunks. -/
def empty : Index := ⟨#[], 0⟩

/-- The index of chunks with the given sizes. -/
def ofSizes (sizes : List UInt64) : Index :=
  sizes.foldl (fun index size => index.push size.toNat) empty

/-- The exact sum of some sizes where each partial sum fits. -/
def exactTotal? (sizes : List UInt64) : Option Nat :=
  sizes.foldlM (fun total size => Size.add? total size.toNat) 0

/-- The index of chunks with the given sizes, provided their sum fits. -/
def ofSizes? (sizes : List UInt64) : Except Error Index :=
  match exactTotal? sizes with
  | some _ => .ok (ofSizes sizes)
  | none => .error (.parse (.sizesPastLimit sizes.length))

/-- The number of parts of a file cut into parts of `part` bytes. -/
def uniformCount? (total part : UInt64) : Except Error Nat :=
  if part = 0 then .error (.config .zeroPartSize)
  else
    let parts := Size.partCount total.toNat part.toNat
    if parts > partLimit then
      .error (.parse (.tooManyParts total.toNat part.toNat parts))
    else .ok parts

/-- The sizes of the parts of a file: all full but perhaps the last. -/
def uniformSizes (total part : UInt64) : List UInt64 :=
  List.replicate (total / part).toNat part ++
    if total % part = 0 then [] else [total % part]

/-- The index of a file cut into parts of `part` bytes. -/
def uniform? (total part : UInt64) : Except Error Index := do
  let _ ← uniformCount? total part
  return ofSizes (uniformSizes total part)

/-- The number of chunks. -/
def size (index : Index) : Nat := index.extents.size

/-- Whether there are no chunks. -/
def isEmpty (index : Index) : Bool := index.size == 0

/-- The extent of a chunk. -/
def get? (index : Index) (i : Nat) : Option Extent := index.extents[i]?

/-- The sizes of all chunks in file order. -/
def sizes (index : Index) : List Nat := index.extents.toList.map Extent.size

/-- The first chunk between `low` and `high` that ends beyond an offset, or `high`; binary search,
for chunks whose ends do not decrease. -/
def firstEndingBeyond (extents : Array Extent) (offset low high : Nat)
    (h : high ≤ extents.size) : Nat :=
  if hlt : low < high then
    let middle := (low + high) / 2
    have hm : middle < high := by omega
    if (extents[middle]).stop ≤ offset then
      firstEndingBeyond extents offset (middle + 1) high h
    else firstEndingBeyond extents offset low middle (by omega)
  else low
termination_by high - low

/-- The chunk that holds the byte at an offset, and the byte's offset in it. -/
def locate (index : Index) (offset : Nat) : Option (Nat × Nat) :=
  if index.total ≤ offset then none
  else
    let i := firstEndingBeyond index.extents offset 0 index.extents.size (Nat.le_refl _)
    match index.extents[i]? with
    | some e => if e.contains offset then some (i, offset - e.position) else none
    | none => none

end Index

end ChunkedFile
