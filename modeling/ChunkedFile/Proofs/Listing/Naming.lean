import Mathlib.Data.List.TakeWhile
import ChunkedFile.Listing.Fragment
import ChunkedFile.Proofs.Text.Numerals
import ChunkedFile.Proofs.Text.Parts

/-!
# Names of fragments

A name is a fragment's where it consists of a base, the marker and the digits of an ordinal, with
points between them. Digits hold no point, so the last point of a name begins them, and the marker
before it leaves one base: a name can be taken apart in one way only, whatever the base and the
marker hold.
-/

namespace ChunkedFile

namespace FragmentPattern

variable {pattern : FragmentPattern} {name base digits : String} {ordinal : Nat}

/-- The name is the base, the marker and some decimal digits with points between them; the base is
not empty and on one line, and the digits denote the ordinal, which is at most ten million. -/
structure Names (pattern : FragmentPattern) (name base digits : String) (ordinal : Nat) : Prop where
  name_eq : name = base ++ "." ++ pattern.marker ++ "." ++ digits
  base_ne : base ≠ ""
  one_line : '\n' ∉ base.toList
  digits_ne : digits ≠ ""
  decimal : ∀ c ∈ digits.toList, c.isDigit = true
  value : Nat.ofDigitChars 10 digits.toList 0 = ordinal
  value_le : ordinal ≤ 10000000

/-- A name is cut at its last point. -/
theorem cut?_append {stem digits : List Char} (h : '.' ∉ digits) :
    pattern.cut? (stem ++ '.' :: digits) =
      (Text.afterStart? (pattern.marker.toList.reverse ++ ['.']) stem.reverse).map fun base =>
        (base.reverse, digits) := by
  have hdigits : ∀ c ∈ digits.reverse, (c != '.') = true := by
    intro c hc
    rw [bne_iff_ne]
    exact fun hpoint => h (hpoint ▸ List.mem_reverse.mp hc)
  have hbackwards : (stem ++ '.' :: digits).reverse = digits.reverse ++ '.' :: stem.reverse := by
    simp
  simp only [cut?, hbackwards, List.dropWhile_append_of_pos hdigits,
    List.takeWhile_append_of_pos hdigits, List.dropWhile_cons_of_neg, List.takeWhile_cons_of_neg,
    bne_self_eq_false, Bool.false_eq_true, not_false_eq_true, List.append_nil,
    List.reverse_reverse]

/-- A name without a point is not cut. -/
theorem cut?_of_not_mem {name : List Char} (h : '.' ∉ name) : pattern.cut? name = none := by
  have hnone : name.reverse.dropWhile (· != '.') = [] := by
    rw [List.dropWhile_eq_nil_iff]
    intro c hc
    rw [bne_iff_ne]
    exact fun hpoint => h (hpoint ▸ List.mem_reverse.mp hc)
  simp only [cut?, hnone]

/-- What a name is cut into is a base and a text without points, with the marker between them. -/
theorem cut?_eq_some_iff {name base digits : List Char} :
    pattern.cut? name = some (base, digits) ↔
      '.' ∉ digits ∧ name = base ++ '.' :: (pattern.marker.toList ++ '.' :: digits) := by
  constructor
  · intro h
    have hpoint : '.' ∈ name := by
      by_contra hnone
      rw [cut?_of_not_mem hnone] at h
      cases h
    obtain ⟨last, stem, hsplit, hlast⟩ := List.eq_append_cons_of_mem (List.mem_reverse.mpr hpoint)
    have hname : name = stem.reverse ++ '.' :: last.reverse := by
      rw [← List.reverse_reverse name, hsplit]
      simp
    rw [hname, cut?_append (by simpa using hlast), Option.map_eq_some_iff] at h
    obtain ⟨rest, hrest, hparts⟩ := h
    rw [Text.afterStart?_eq_some_iff, List.reverse_reverse] at hrest
    obtain ⟨rfl, rfl⟩ := Prod.mk.inj hparts
    refine ⟨by simpa using hlast, ?_⟩
    rw [hname, hrest]
    simp
  · rintro ⟨hdigits, rfl⟩
    have hname : base ++ '.' :: (pattern.marker.toList ++ '.' :: digits) =
        (base ++ '.' :: pattern.marker.toList) ++ '.' :: digits := by simp
    rw [hname, cut?_append hdigits, Option.map_eq_some_iff]
    refine ⟨base.reverse, ?_, by rw [List.reverse_reverse]⟩
    rw [Text.afterStart?_eq_some_iff]
    simp

/-- Digits denote an ordinal where there are some and their value is not too large. -/
theorem ordinal?_eq_some_iff {digits : List Char} : ordinal? digits = some ordinal ↔
    digits ≠ [] ∧ (∀ c ∈ digits, c.isDigit = true) ∧ Nat.ofDigitChars 10 digits 0 = ordinal ∧
      ordinal ≤ 10000000 := by
  have hread : Text.readDigits 10 partLimit .tooLarge 0 digits = .ok ordinal ↔
      (∀ c ∈ digits, c.isDigit = true) ∧ Nat.ofDigitChars 10 digits 0 = ordinal ∧
        ordinal ≤ 10000000 := Text.readDigits_eq_ok_iff (Nat.zero_le partLimit)
  rw [← hread, ordinal?]
  cases Text.readDigits 10 partLimit .tooLarge 0 digits with
  | error fault => simp
  | ok n => cases digits <;> simp

/-- The parts of a fragment's name, character by character. -/
theorem eq_joined_iff : name = base ++ "." ++ pattern.marker ++ "." ++ digits ↔
    name.toList = base.toList ++ '.' :: (pattern.marker.toList ++ '.' :: digits.toList) := by
  have hpoint : ".".toList = ['.'] := rfl
  simp only [← String.toList_inj, String.toList_append, hpoint, List.append_assoc,
    List.cons_append, List.nil_append]

/-- A name is cut into its base and its digits. -/
theorem Names.cut?_eq (h : pattern.Names name base digits ordinal) :
    pattern.cut? name.toList = some (base.toList, digits.toList) := by
  refine cut?_eq_some_iff.mpr ⟨fun hpoint => ?_, eq_joined_iff.mp h.name_eq⟩
  cases h.decimal '.' hpoint

/-- A fragment's name is read as its base and ordinal. -/
theorem Names.parse_eq (h : pattern.Names name base digits ordinal) :
    pattern.parse name = some (base, ordinal) := by
  have hbase : ¬ (base.toList.isEmpty ∨ '\n' ∈ base.toList) := by
    simpa using ⟨h.base_ne, h.one_line⟩
  have hordinal : ordinal? digits.toList = some ordinal :=
    ordinal?_eq_some_iff.mpr ⟨by simpa using h.digits_ne, h.decimal, h.value, h.value_le⟩
  simp only [parse, h.cut?_eq, if_neg hbase, hordinal, Option.map_some, String.ofList_toList]

/-- A name that is read has a base and digits. -/
theorem exists_names_of_parse (h : pattern.parse name = some (base, ordinal)) :
    ∃ digits, pattern.Names name base digits ordinal := by
  rw [parse] at h
  split at h
  · cases h
  · rename_i stem digits hcut
    split at h
    · cases h
    · rename_i hstem
      obtain ⟨n, hordinal, hparts⟩ := Option.map_eq_some_iff.mp h
      obtain ⟨rfl, rfl⟩ := Prod.mk.inj hparts
      obtain ⟨hne, hdecimal, hvalue, hle⟩ := ordinal?_eq_some_iff.mp hordinal
      obtain ⟨hsome, hline⟩ := not_or.mp hstem
      refine ⟨String.ofList digits, eq_joined_iff.mpr ?_, ?_, ?_, ?_, ?_, ?_, hle⟩
      · simpa using (cut?_eq_some_iff.mp hcut).2
      · simpa using hsome
      · simpa using hline
      · simpa using hne
      · simpa using hdecimal
      · simpa using hvalue

/-- A name can be taken apart in one way only. -/
theorem Names.unique {otherBase otherDigits : String} {otherOrdinal : Nat}
    (h : pattern.Names name base digits ordinal)
    (hother : pattern.Names name otherBase otherDigits otherOrdinal) :
    base = otherBase ∧ digits = otherDigits := by
  have hcut := h.cut?_eq
  rw [hother.cut?_eq, Option.some.injEq, Prod.mk.injEq, String.toList_inj, String.toList_inj] at hcut
  exact ⟨hcut.1.symm, hcut.2.symm⟩

/-- The name of a fragment is made of its parts. -/
theorem names_fragmentName (hbase : base ≠ "") (hline : '\n' ∉ base.toList)
    (hordinal : ordinal ≤ 10000000) :
    pattern.Names (pattern.fragmentName base ordinal) base (Text.padded 3 ordinal) ordinal := by
  obtain ⟨hne, hdecimal, hvalue⟩ := Text.padded_spec 3 ordinal
  exact ⟨rfl, hbase, hline, by simpa using hne, hdecimal, hvalue, hordinal⟩

/-- A name is read as a fragment's exactly where it has the parts of one, which are then the only
ones, and every fragment's name is read as its base and its ordinal. -/
theorem parse_names (pattern : FragmentPattern) :
    (∀ name base ordinal, pattern.parse name = some (base, ordinal) ↔
      ∃ digits, pattern.Names name base digits ordinal) ∧
    (∀ name base digits ordinal otherBase otherDigits otherOrdinal,
      pattern.Names name base digits ordinal →
        pattern.Names name otherBase otherDigits otherOrdinal →
          base = otherBase ∧ digits = otherDigits ∧ ordinal = otherOrdinal) ∧
    ∀ base ordinal, base ≠ "" → '\n' ∉ base.toList → ordinal ≤ 10000000 →
      pattern.parse (pattern.fragmentName base ordinal) = some (base, ordinal) := by
  refine ⟨fun name base ordinal => ⟨exists_names_of_parse, ?_⟩, ?_, ?_⟩
  · rintro ⟨digits, h⟩
    exact h.parse_eq
  · intro name base digits ordinal otherBase otherDigits otherOrdinal h hother
    obtain ⟨hbase, hdigits⟩ := h.unique hother
    refine ⟨hbase, hdigits, ?_⟩
    rw [← h.value, ← hother.value, hdigits]
  · intro base ordinal hbase hline hordinal
    exact (names_fragmentName hbase hline hordinal).parse_eq

/-- A marker that holds digits and a point. -/
def numericPattern : FragmentPattern := ⟨"1.2", by decide⟩

/-- The base is a fragment's name itself, and is read back from the name of its own fragment. -/
theorem parse_names_numericPattern :
    numericPattern.parse "a.1.2.3" = some ("a", 3) ∧
      numericPattern.fragmentName "a.1.2.3" 7 = "a.1.2.3.1.2.007" ∧
      numericPattern.parse "a.1.2.3.1.2.007" = some ("a.1.2.3", 7) := by
  have hname : numericPattern.fragmentName "a.1.2.3" 7 = "a.1.2.3.1.2.007" := rfl
  obtain ⟨-, -, hread⟩ := parse_names numericPattern
  have hparse := hread "a.1.2.3" 7 (by decide) (by decide) (by decide)
  rw [hname] at hparse
  exact ⟨rfl, hname, hparse⟩

end FragmentPattern

end ChunkedFile
