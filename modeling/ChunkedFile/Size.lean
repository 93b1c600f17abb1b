/-!
# Sizes in bytes

A size is a natural number of at most 64 bits. Two sums are kept apart: `Size.add` holds at the
greatest size and `Size.add?` refuses to pass it, so that a total can either be shown or be trusted.
-/

namespace ChunkedFile.Size

/-- The greatest size that can be recorded. -/
def limit : Nat := 18446744073709551615

/-- Every recorded size is within the limit. -/
theorem toNat_le_limit (n : UInt64) : n.toNat ≤ limit := by
  have h : n.toNat < 18446744073709551616 := n.toNat_lt
  unfold limit
  omega

/-- The sum of two sizes, held at the limit. -/
def add (a b : Nat) : Nat := min (a + b) limit

/-- The sum of two sizes where it is within the limit. -/
def add? (a b : Nat) : Option Nat := if a + b ≤ limit then some (a + b) else none

/-- Sizes are added where their sum can be held. -/
theorem add?_eq_some_iff {a b c : Nat} : add? a b = some c ↔ a + b ≤ limit ∧ a + b = c := by
  simp [add?]

/-- The sum of all sizes, held at the limit from the first sum that passes it. -/
def total (sizes : List Nat) : Nat := sizes.foldl add 0

/-- The number of parts of `part` bytes that `total` bytes fill, the last one perhaps in part. -/
def partCount (total part : Nat) : Nat := total / part + if total % part = 0 then 0 else 1

/-- A recorded number that has to fit 64 bits. -/
def ofNat? (n : Nat) : Option UInt64 := if n ≤ limit then some (UInt64.ofNat n) else none

end ChunkedFile.Size
