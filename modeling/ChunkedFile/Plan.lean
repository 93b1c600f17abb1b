import ChunkedFile.Error

/-!
# Plans

A plan names the chunks of one file in the order in which their bytes follow each other, with the
digest of the whole file where one is recorded. Any sizes can be recorded; `Plan.validate` says
whether their sum is a size.
-/

namespace ChunkedFile

/-- A chunk in the backing store. -/
structure ChunkRef where
  address : String
  size : UInt64
  deriving DecidableEq, Repr

/-- The recorded digest of a file. -/
structure ExpectedDigest where
  algorithm : Algorithm
  hex : String
  deriving DecidableEq, Repr

/-- The chunks of one file. -/
structure Plan where
  chunks : List ChunkRef
  digest : Option ExpectedDigest := none
  /-- Whether the chunks are fetched through the proxy. -/
  proxied : Bool := false
  deriving DecidableEq, Repr

namespace Plan

/-- The sizes of the chunks in order. -/
def sizes (plan : Plan) : List UInt64 := plan.chunks.map ChunkRef.size

/-- The addresses of the chunks in order. -/
def addresses (plan : Plan) : List String := plan.chunks.map ChunkRef.address

/-- The sum of the sizes, held at the greatest size. -/
def totalSize (plan : Plan) : Nat := Size.total (plan.sizes.map UInt64.toNat)

/-- Adds a chunk to the sum of those before it. -/
def addChunk (total : Nat) (chunk : ChunkRef) : Except Error Nat :=
  match Size.add? total chunk.size.toNat with
  | some total => .ok total
  | none => .error (.parse (.sizesOverflow chunk.address chunk.size.toNat))

/-- The exact sum of the sizes, or the first chunk at which it is too large. -/
def validate (plan : Plan) : Except Error Nat := plan.chunks.foldlM addChunk 0

/-- The valid plan of addresses and as many sizes. -/
def ofSizes (addresses : List String) (sizes : List UInt64) : Except Error Plan :=
  if addresses.length ≠ sizes.length then
    .error (.parse (.addressCount addresses.length sizes.length))
  else do
    let plan : Plan := { chunks := List.zipWith ChunkRef.mk addresses sizes }
    let _ ← plan.validate
    return plan

end Plan

end ChunkedFile
