import ChunkedFile.Chunk.Index
import ChunkedFile.Plan

/-!
# Chunk tables

The index of a file's chunks together with the address of each. `Index.passSkipped` and
`Index.passEmpty` move a cursor over chunks that need not be fetched.
-/

namespace ChunkedFile

namespace Index

/-- Passes the chunks that lie wholly in the next `skip` bytes; what is left of the skip is smaller
than the chunk at the new cursor, if there is one. -/
def passSkipped (index : Index) (cursor skip : Nat) : Nat × Nat :=
  if h : cursor < index.extents.size then
    if skip ≠ 0 ∧ index.extents[cursor].size ≤ skip then
      passSkipped index (cursor + 1) (skip - index.extents[cursor].size)
    else (cursor, skip)
  else (cursor, skip)
termination_by index.extents.size - cursor

/-- The number of bytes in the chunk at a cursor and those after it. -/
def bytesFrom (index : Index) (cursor : Nat) : Nat :=
  (index.extents.toList.drop cursor).foldr (fun e total => e.size + total) 0

/-- Passes the empty chunks at a cursor. -/
def passEmpty (index : Index) (cursor : Nat) : Nat :=
  if h : cursor < index.extents.size then
    if index.extents[cursor].size = 0 then passEmpty index (cursor + 1) else cursor
  else cursor
termination_by index.extents.size - cursor

end Index

/-- The chunks of a file and where they are stored. -/
structure ChunkTable where
  index : Index
  addresses : Array String
  size_eq : addresses.size = index.size

namespace ChunkTable

/-- The table of an index and as many addresses. -/
def ofAddresses (index : Index) (addresses : List String) : Except Error ChunkTable :=
  if h : addresses.toArray.size = index.size then .ok ⟨index, addresses.toArray, h⟩
  else
    .error (.internal s!"{addresses.length} chunk addresses for {index.size} indexed chunks")

/-- The table of a plan whose sizes have a sum. -/
def ofPlan (plan : Plan) : Except Error ChunkTable := do
  ofAddresses (← Index.ofSizes? plan.sizes) plan.addresses

/-- The size of the file. -/
def total (table : ChunkTable) : Nat := table.index.total

/-- The size and the address of a chunk. -/
def get? (table : ChunkTable) (i : Nat) : Option (Nat × String) :=
  if h : i < table.index.extents.size then
    have hi : i < table.addresses.size := by rw [table.size_eq]; exact h
    some (table.index.extents[i].size, table.addresses[i])
  else none

end ChunkTable

end ChunkedFile
