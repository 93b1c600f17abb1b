import Mathlib.Data.String.Basic
import Mathlib.Tactic.SplitIfs

/-!
# Texts as bytes

Stores order names by the bytes that encode them. The encoding keeps the order of characters: where
two of them differ, so does a byte of their codes, and the first such byte decides in the same way.
-/

namespace ChunkedFile.Text

/-- The bytes that encode a text. -/
def bytes (s : String) : List UInt8 := s.toUTF8.data.toList

/-- The bytes of a text are those of its characters. -/
theorem bytes_eq (s : String) : bytes s = s.toList.flatMap String.utf8EncodeChar := by
  obtain ⟨cs, rfl⟩ : ∃ cs, s = String.ofList cs := ⟨s.toList, s.ofList_toList.symm⟩
  rw [bytes, String.toUTF8_eq_toByteArray, String.toByteArray_ofList, List.utf8Encode,
    List.data_toByteArray, String.toList_ofList]

/-- The codes of two characters differ in a byte, whatever follows them. -/
theorem utf8EncodeChar_append_lt {c d : Char} (h : c < d) (s t : List UInt8) :
    String.utf8EncodeChar c ++ s < String.utf8EncodeChar d ++ t := by
  have hval : c.val.toNat < d.val.toNat := h
  have hlimit : d.val.toNat < 0x110000 := by
    rcases d.valid with hlow | ⟨-, hhigh⟩
    · exact hlow.trans (by decide)
    · exact hhigh
  simp only [String.utf8EncodeChar]
  generalize c.val.toNat = v at *
  generalize d.val.toNat = w at *
  -- one case for each pair of lengths; the bytes are digits, which fit in a byte
  split_ifs <;>
    simp (disch := omega) only [List.cons_append, List.nil_append, List.cons_lt_cons_iff,
      UInt8.lt_iff_toNat_lt, ← UInt8.toNat_inj, UInt8.toNat_ofNat', Nat.mod_eq_of_lt] <;>
    omega

theorem bytes_lt_bytes {s t : String} (h : s < t) : bytes s < bytes t := by
  rw [String.lt_iff_toList_lt] at h
  rw [bytes_eq, bytes_eq]
  generalize s.toList = cs at *
  generalize t.toList = ds at *
  induction cs generalizing ds with
  | nil =>
    cases ds with
    | nil => exact absurd h (List.lt_irrefl [])
    | cons d ds =>
      have hlength := String.length_utf8EncodeChar d ▸ d.utf8Size_pos
      obtain ⟨byte, rest, hcode⟩ := List.exists_cons_of_length_pos hlength
      rw [List.flatMap_nil, List.flatMap_cons, hcode, List.cons_append]
      exact List.nil_lt_cons _ _
  | cons c cs ih =>
    cases ds with
    | nil => cases h
    | cons d ds =>
      rw [List.flatMap_cons, List.flatMap_cons]
      rcases List.cons_lt_cons_iff.mp h with hlt | ⟨rfl, hrest⟩
      · exact utf8EncodeChar_append_lt hlt _ _
      · exact List.append_left_lt (ih ds hrest)

/-- The order of texts is that of their bytes. -/
theorem bytes_lt_bytes_iff {s t : String} : bytes s < bytes t ↔ s < t := by
  refine ⟨fun h => ?_, bytes_lt_bytes⟩
  rcases lt_trichotomy s t with hlt | rfl | hgt
  · exact hlt
  · exact absurd h (List.lt_irrefl _)
  · exact absurd h (List.lt_asymm (bytes_lt_bytes hgt))

/-- Texts are ordered as their bytes are. -/
theorem bytes_le_bytes_iff {s t : String} : bytes s ≤ bytes t ↔ s ≤ t := by
  rw [← List.not_lt, bytes_lt_bytes_iff, not_lt]

end ChunkedFile.Text
