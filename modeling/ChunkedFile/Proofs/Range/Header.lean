import ChunkedFile.Proofs.Text.Numerals
import ChunkedFile.Proofs.Text.Parts
import ChunkedFile.Range

/-!
# Range headers

A header asks for positions by their numerals, with blanks around each and around the whole. What it
asks for is said here by a grammar. A header is refused as a text where it has no form of the
grammar, and as a range where the last position lies before the first; every other one is a range.
-/

namespace ChunkedFile.ByteRange

open Text

variable {header : String} {first : UInt64} {last : Option UInt64} {text : List Char}

/-- Without the blanks around it, the text is the numeral of the size. -/
def Tells (text : List Char) (size : UInt64) : Prop :=
  ∃ core, Trims text core ∧ IsNumeral core size.toNat

/-- The text tells the size, or holds nothing but blanks where there is none. -/
def Closes (text : List Char) : Option UInt64 → Prop
  | none => Trims text []
  | some size => Tells text size

/-- The header asks for the positions from the first on, up to the last where it tells one: between
blanks stand `bytes=`, the first, a hyphen, and the last or nothing. -/
def Asks (header : String) (first : UInt64) (last : Option UInt64) : Prop :=
  ∃ before after, '-' ∉ before ∧
    Trims header.toList ("bytes=".toList ++ (before ++ '-' :: after)) ∧
      Tells before first ∧ Closes after last

/-- The range that is asked for. -/
def answer (first : UInt64) : Option UInt64 → Except Error ByteRange
  | none => .ok ⟨first, none⟩
  | some last => inclusive first last

/-- A text tells the size that is read from it between blanks. -/
theorem tells_iff {size : UInt64} : Tells text size ↔ readSize (trimBlanks text) = .ok size := by
  rw [readSize_eq_ok_iff]
  constructor
  · rintro ⟨core, hcore, hnumeral⟩
    rwa [hcore.trimBlanks_eq]
  · exact fun hnumeral => ⟨_, trims_trimBlanks text, hnumeral⟩

/-- What tells a size holds more than blanks. -/
theorem Tells.trimBlanks_ne {size : UInt64} (h : Tells text size) : trimBlanks text ≠ [] := by
  intro hblank
  have hread := tells_iff.mp h
  rw [hblank] at hread
  cases hread

/-- A header is answered as it asks. -/
theorem Asks.ofHeader_eq (h : Asks header first last) : ofHeader header = answer first last := by
  obtain ⟨before, after, hnone, htrims, hfirst, hlast⟩ := h
  have hrange := afterStart?_eq_some_iff.mpr htrims.trimBlanks_eq
  have hsplit : splitFirst? '-' (before ++ '-' :: after) = some (before, after) :=
    splitFirst?_eq_some_iff.mpr ⟨hnone, rfl⟩
  simp only [ofHeader, hrange, hsplit, tells_iff.mp hfirst]
  cases last with
  | none =>
    rw [hlast.trimBlanks_eq]
    rfl
  | some last =>
    have hsome : (trimBlanks after).isEmpty = false :=
      List.isEmpty_eq_false_iff.mpr (Tells.trimBlanks_ne hlast)
    simp only [hsome, Bool.false_eq_true, if_false, tells_iff.mp hlast, answer]

/-- What stands around the first hyphen is what a header asks for. -/
theorem asks_of_parts {range before after : List Char}
    (hrange : afterStart? "bytes=".toList (trimBlanks header.toList) = some range)
    (hsplit : splitFirst? '-' range = some (before, after))
    (hfirst : readSize (trimBlanks before) = .ok first) (hlast : Closes after last) :
    Asks header first last := by
  obtain ⟨hnone, rfl⟩ := splitFirst?_eq_some_iff.mp hsplit
  have htrims := trims_trimBlanks header.toList
  rw [afterStart?_eq_some_iff.mp hrange] at htrims
  exact ⟨before, after, hnone, htrims, tells_iff.mpr hfirst, hlast⟩

/-- A header that asks for nothing is refused as a text. -/
theorem asks_or_error (header : String) :
    (∃ first last, Asks header first last) ∨ ∃ fault, ofHeader header = .error (.parse fault) := by
  fun_cases ofHeader header with
  | case1 => exact Or.inr ⟨_, rfl⟩
  | case2 => exact Or.inr ⟨_, rfl⟩
  | case3 => exact Or.inr ⟨_, rfl⟩
  | case4 text range hrange before after hsplit first hfirst last hempty =>
    have hnothing : trimBlanks after = [] := List.isEmpty_iff.mp hempty
    have hblank := trims_trimBlanks after
    rw [hnothing] at hblank
    exact Or.inl ⟨first, none, asks_of_parts hrange hsplit hfirst hblank⟩
  | case5 => exact Or.inr ⟨_, rfl⟩
  | case6 text range hrange before after hsplit first hfirst last hsome size hsize =>
    have htells : Closes after (some size) := tells_iff.mpr hsize
    exact Or.inl ⟨first, some size, asks_of_parts hrange hsplit hfirst htells⟩

/-- Anything but a fault of the text is an answer to what is asked. -/
theorem ofHeader_eq_iff {result : Except Error ByteRange}
    (hresult : ∀ fault, result ≠ .error (.parse fault)) :
    ofHeader header = result ↔ ∃ first last, Asks header first last ∧ answer first last = result := by
  constructor
  · intro h
    rcases asks_or_error header with ⟨first, last, hasks⟩ | ⟨fault, hfault⟩
    · exact ⟨first, last, hasks, hasks.ofHeader_eq.symm.trans h⟩
    · exact absurd (h.symm.trans hfault) (hresult fault)
  · rintro ⟨first, last, hasks, h⟩
    exact hasks.ofHeader_eq.trans h

/-- A range with both ends has the length from the first byte to the last, as far as it can
be held. -/
theorem inclusive_eq_ok_iff {last : UInt64} {range : ByteRange} :
    inclusive first last = .ok range ↔ first ≤ last ∧ range =
      ⟨first, some (UInt64.ofNat (min (last.toNat - first.toNat + 1) Size.limit))⟩ := by
  rw [inclusive]
  split
  · rename_i hlt
    simp [UInt64.not_le.mpr hlt]
  · rename_i hle
    rw [Except.ok.injEq, and_iff_right (UInt64.not_lt.mp hle), eq_comm]
    rfl

/-- Only a range that ends before it begins is refused. -/
theorem inclusive_eq_error_iff {last : UInt64} {error : Error} :
    inclusive first last = .error error ↔
      last < first ∧ error = .range (.reversed first.toNat last.toNat) := by
  rw [inclusive]
  split
  · rename_i hlt
    rw [Except.error.injEq, and_iff_right hlt, eq_comm]
  · rename_i hle
    simp [hle]

/-- An answer is not a fault of the text. -/
theorem answer_ne_error (first : UInt64) (last : Option UInt64) (fault : ParseFault) :
    answer first last ≠ .error (.parse fault) := by
  intro h
  cases last with
  | none => cases h
  | some last => cases (inclusive_eq_error_iff.mp h).2

/-- A header that asks for the positions from the first on is the range without a length, and one
that asks for those up to the last, which is not before the first, is the range of as many bytes,
held at the greatest size. Where the last is before the first the range is refused, with both
positions; every header that asks for nothing is refused as a text. -/
theorem header_answered (header : String) :
    (∀ range, ofHeader header = .ok range ↔
      (∃ first, Asks header first none ∧ range = ⟨first, none⟩) ∨
      ∃ first last, Asks header first (some last) ∧ first ≤ last ∧ range =
        ⟨first, some (UInt64.ofNat (min (last.toNat - first.toNat + 1) 18446744073709551615))⟩) ∧
    (∀ fault, ofHeader header = .error (.range fault) ↔
      ∃ first last, Asks header first (some last) ∧ last < first ∧
        fault = .reversed first.toNat last.toNat) ∧
    ((∃ fault, ofHeader header = .error (.parse fault)) ↔
      ∀ first last, ¬ Asks header first last) := by
  refine ⟨fun range => ?_, fun fault => ?_, ?_⟩
  · rw [ofHeader_eq_iff (by simp)]
    constructor
    · rintro ⟨first, _ | last, hasks, hanswer⟩
      · cases hanswer
        exact Or.inl ⟨first, hasks, rfl⟩
      · exact Or.inr ⟨first, last, hasks, inclusive_eq_ok_iff.mp hanswer⟩
    · rintro (⟨first, hasks, rfl⟩ | ⟨first, last, hasks, hinclusive⟩)
      · exact ⟨first, none, hasks, rfl⟩
      · exact ⟨first, some last, hasks, inclusive_eq_ok_iff.mpr hinclusive⟩
  · rw [ofHeader_eq_iff (by simp)]
    constructor
    · rintro ⟨first, _ | last, hasks, hanswer⟩
      · cases hanswer
      · obtain ⟨hlt, hfault⟩ := inclusive_eq_error_iff.mp hanswer
        cases hfault
        exact ⟨first, last, hasks, hlt, rfl⟩
    · rintro ⟨first, last, hasks, hlt, rfl⟩
      exact ⟨first, some last, hasks, inclusive_eq_error_iff.mpr ⟨hlt, rfl⟩⟩
  · constructor
    · rintro ⟨fault, hfault⟩ first last hasks
      exact answer_ne_error first last fault (hasks.ofHeader_eq.symm.trans hfault)
    · intro hnone
      rcases asks_or_error header with ⟨first, last, hasks⟩ | hfault
      · exact absurd hasks (hnone first last)
      · exact hfault

/-- A header with signs, zeros and blanks: all positions that there are, one more than a length can
say. -/
def widestHeader : String := "\u3000bytes= +00 - +18446744073709551615\t"

theorem asks_widestHeader : Asks widestHeader 0 (some 18446744073709551615) := by
  refine ⟨" +00 ".toList, " +18446744073709551615".toList, by decide, ?_, ?_, ?_⟩
  · exact trimBlanks_eq_iff.mp (by decide +kernel)
  · exact ⟨"+00".toList, trimBlanks_eq_iff.mp (by decide +kernel), "00".toList, Or.inr rfl, by decide,
      List.all_eq_true.mp rfl, rfl⟩
  · exact ⟨"+18446744073709551615".toList, trimBlanks_eq_iff.mp (by decide +kernel),
      "18446744073709551615".toList, Or.inr rfl, by decide, List.all_eq_true.mp rfl, rfl⟩

/-- The longest range has the greatest length that can be held. -/
theorem header_answered_widestHeader :
    ofHeader widestHeader = .ok ⟨0, some 18446744073709551615⟩ ∧
      ¬ ∃ fault, ofHeader widestHeader = .error (.parse fault) := by
  obtain ⟨hrange, -, htext⟩ := header_answered widestHeader
  have hasks := asks_widestHeader
  refine ⟨(hrange _).mpr (Or.inr ⟨0, _, hasks, by decide, by decide⟩), fun hfault => ?_⟩
  exact htext.mp hfault 0 _ hasks

/-- The digits of a size tell it. -/
theorem tells_toDigits (size : UInt64) : Tells (Nat.toDigits 10 size.toNat) size :=
  ⟨_, .of_forall fun _ hc => isBlank_of_mem_toDigits hc, isNumeral_toDigits size.toNat⟩

/-- A header without blanks asks for what stands around its hyphen. -/
theorem asks_of_digits (after : List Char)
    (hheader : header.toList = "bytes=".toList ++ (Nat.toDigits 10 first.toNat ++ '-' :: after))
    (hafter : ∀ c ∈ after, isBlank c = false) (hlast : Closes after last) :
    Asks header first last := by
  have hname : ∀ c ∈ "bytes=".toList, isBlank c = false := by simp [isBlank]
  refine ⟨_, _, ?_, ?_, tells_toDigits first, hlast⟩
  · intro hmem
    exact absurd (isDigit_of_mem_toDigits hmem) (by decide)
  · rw [hheader]
    refine .of_forall fun c hc => ?_
    simp only [List.mem_append, List.mem_cons] at hc
    rcases hc with hc | hc | rfl | hc
    · exact hname c hc
    · exact isBlank_of_mem_toDigits hc
    · rfl
    · exact hafter c hc

/-- A header of two sizes in decimal digits asks for the positions from the one to the other. -/
theorem asks_decimal (first last : UInt64) : Asks s!"bytes={first}-{last}" first (some last) := by
  refine asks_of_digits _ ?_ (fun _ hc => isBlank_of_mem_toDigits hc) (tells_toDigits last)
  simp [ToString.toString, Nat.repr]

/-- A header of one size in decimal digits and a hyphen asks for all positions from there on. -/
theorem asks_decimal_open (first : UInt64) : Asks s!"bytes={first}-" first none := by
  refine asks_of_digits [] ?_ (by simp) (.of_forall (by simp))
  simp [ToString.toString, Nat.repr]

end ChunkedFile.ByteRange
