import Mathlib.Algebra.BigOperators.Group.List.Basic
import Mathlib.Algebra.Order.Floor.Div
import Mathlib.Data.UInt
import ChunkedFile.Chunk.Index

/-!
# Parts of one size

A file that is cut uniformly has as many parts as the quotient of its size and the size of a part,
rounded up. Each begins where the parts before it end, so its size is what is left there, but at
most a full part: all parts are full but perhaps the last.
-/

namespace ChunkedFile

/-- The number of parts is the quotient rounded up. -/
theorem Size.partCount_eq_ceilDiv {part : Nat} (hpart : 0 < part) (total : Nat) :
    partCount total part = total ⌈/⌉ part := by
  refine eq_of_forall_ge_iff fun count => ?_
  rw [ceilDiv_le_iff_le_mul hpart, partCount]
  have hsplit := Nat.div_add_mod total part
  have hrest := Nat.mod_lt total hpart
  constructor
  · intro hcount
    have hfull := Nat.mul_le_mul_left part hcount
    rw [Nat.mul_add] at hfull
    split at hfull <;> omega
  · intro htotal
    have hfull : total / part ≤ count := Nat.div_le_of_le_mul htotal
    split
    · exact hfull
    · rename_i hpartial
      refine lt_of_le_of_ne hfull fun heq => ?_
      rw [← heq] at htotal
      omega

namespace Index

variable {total part : UInt64}

theorem toNat_part_pos (hpart : part ≠ 0) : 0 < part.toNat :=
  UInt64.lt_iff_toNat_lt.mp (UInt64.pos_iff_ne_zero.mpr hpart)

/-- The parts are counted where there are not too many of them. -/
theorem uniformCount?_eq_ok_iff (hpart : part ≠ 0) {count : Nat} :
    uniformCount? total part = .ok count ↔
      total.toNat ⌈/⌉ part.toNat ≤ partLimit ∧ count = total.toNat ⌈/⌉ part.toNat := by
  rw [uniformCount?, if_neg hpart, Size.partCount_eq_ceilDiv (toNat_part_pos hpart)]
  by_cases hmany : total.toNat ⌈/⌉ part.toNat > partLimit
  · simp only [if_pos hmany, reduceCtorEq, false_iff, not_and]
    omega
  · simp only [if_neg hmany, Except.ok.injEq, eq_comm (b := count)]
    omega

/-- Parts are not counted where they have no size, or where there are too many of them. -/
theorem uniformCount?_eq_error_iff {error : Error} : uniformCount? total part = .error error ↔
    (part = 0 ∧ error = .config .zeroPartSize) ∨
      (part ≠ 0 ∧ partLimit < total.toNat ⌈/⌉ part.toNat ∧ error =
        .parse (.tooManyParts total.toNat part.toNat (total.toNat ⌈/⌉ part.toNat))) := by
  rw [uniformCount?]
  by_cases hpart : part = 0
  · simp [hpart, eq_comm]
  · rw [if_neg hpart, Size.partCount_eq_ceilDiv (toNat_part_pos hpart)]
    by_cases hmany : total.toNat ⌈/⌉ part.toNat > partLimit
    · simp [hpart, hmany, eq_comm]
    · simp [hpart, hmany]

/-- There are as many sizes as parts are counted. -/
theorem length_uniformSizes (hpart : part ≠ 0) :
    (uniformSizes total part).length = total.toNat ⌈/⌉ part.toNat := by
  have hrest : total % part = 0 ↔ total.toNat % part.toNat = 0 := by
    rw [← UInt64.toNat_inj, UInt64.toNat_mod]
    rfl
  rw [← Size.partCount_eq_ceilDiv (toNat_part_pos hpart), uniformSizes, Size.partCount,
    List.length_append, List.length_replicate, UInt64.toNat_div]
  by_cases hfull : total % part = 0
  · rw [if_pos hfull, if_pos (hrest.mp hfull), List.length_nil]
  · rw [if_neg hfull, if_neg (mt hrest.mpr hfull), List.length_singleton]

/-- Together the parts are the file. -/
theorem sum_uniformSizes (total part : UInt64) :
    ((uniformSizes total part).map UInt64.toNat).sum = total.toNat := by
  have hsplit := Nat.div_add_mod' total.toNat part.toNat
  rw [uniformSizes, List.map_append, List.map_replicate, List.sum_append, List.sum_replicate,
    UInt64.toNat_div, smul_eq_mul]
  by_cases hfull : total % part = 0
  · have hrest := congrArg UInt64.toNat hfull
    rw [UInt64.toNat_mod, UInt64.toNat_zero] at hrest
    rw [if_pos hfull, List.map_nil, List.sum_nil]
    omega
  · rw [if_neg hfull, List.map_singleton, List.sum_singleton, UInt64.toNat_mod, hsplit]

/-- A part takes what is left of the file, but at most a full part. -/
theorem toNat_getElem_uniformSizes (hpart : part ≠ 0) {i : Nat}
    (hi : i < (uniformSizes total part).length) :
    ((uniformSizes total part)[i]).toNat =
      min part.toNat (total.toNat - part.toNat * i) := by
  have hsplit := Nat.div_add_mod total.toNat part.toNat
  have hrest := Nat.mod_lt total.toNat (toNat_part_pos hpart)
  by_cases hfull : i < (List.replicate (total / part).toNat part).length
  · have hget : (uniformSizes total part)[i] = part := by
      simp only [uniformSizes, List.getElem_append_left hfull, List.getElem_replicate]
    rw [List.length_replicate, UInt64.toNat_div] at hfull
    have hends := Nat.mul_le_mul_left part.toNat (Nat.succ_le_of_lt hfull)
    rw [Nat.mul_succ] at hends
    rw [hget]
    omega
  · rw [List.length_replicate, UInt64.toNat_div] at hfull
    have hpartial : total % part ≠ 0 := by
      intro heq
      simp only [uniformSizes, if_pos heq, List.append_nil, List.length_replicate,
        UInt64.toNat_div] at hi
      exact hfull hi
    simp only [uniformSizes, if_neg hpartial, List.length_append, List.length_replicate,
      UInt64.toNat_div, List.length_singleton] at hi
    -- behind the full parts there is one that takes the remainder
    have hlast : i = total.toNat / part.toNat := by omega
    have hget : (uniformSizes total part)[i] = total % part := by
      simp only [uniformSizes, if_neg hpartial]
      rw [List.getElem_append_right (by simpa using hlast.ge), List.getElem_singleton]
    rw [hget, UInt64.toNat_mod, hlast]
    omega

/-- All parts but the last are full, and the last takes what they leave. -/
theorem getElem_uniformSizes (hpart : part ≠ 0) {i : Nat}
    (hi : i < (uniformSizes total part).length) :
    (uniformSizes total part)[i] =
      if i + 1 < total.toNat ⌈/⌉ part.toNat then part
      else UInt64.ofNat (total.toNat - part.toNat * i) := by
  have hlast : total.toNat ⌈/⌉ part.toNat ≤ i + 1 ↔ total.toNat ≤ part.toNat * i + part.toNat := by
    rw [ceilDiv_le_iff_le_mul (toNat_part_pos hpart), Nat.mul_succ]
  rw [← UInt64.toNat_inj, toNat_getElem_uniformSizes hpart hi]
  split
  · omega
  · have hfits : total.toNat - part.toNat * i < 2 ^ 64 :=
      (Nat.sub_le _ _).trans_lt total.toNat_lt
    rw [UInt64.toNat_ofNat_of_lt' hfits]
    omega

end Index

end ChunkedFile
