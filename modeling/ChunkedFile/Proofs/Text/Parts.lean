import Mathlib.Data.List.DropRight
import ChunkedFile.Text.Trim

/-!
# Parts of a text

Readers take a text apart: they drop the blanks around it, a start that it has to have, and what
stands before a mark. Each of these is said here by the text that the parts make up.
-/

namespace ChunkedFile.Text

variable {c : Char} {start text core cs before after rest : List Char}

/-- What follows a start is the rest behind it. -/
theorem afterStart?_eq_some_iff : afterStart? start cs = some rest ↔ cs = start ++ rest := by
  induction start generalizing cs with
  | nil => simp [afterStart?]
  | cons c start ih =>
    cases cs with
    | nil => simp [afterStart?]
    | cons d cs =>
      simp only [afterStart?, List.cons_append, List.cons.injEq]
      by_cases hsame : c = d
      · rw [if_pos hsame, ih]
        exact (and_iff_right hsame.symm).symm
      · rw [if_neg hsame]
        exact ⟨nofun, fun h => absurd h.1.symm hsame⟩

/-- A text is split at the first mark, so none stands before it. -/
theorem splitFirst?_eq_some_iff :
    splitFirst? c cs = some (before, after) ↔ c ∉ before ∧ cs = before ++ c :: after := by
  induction cs generalizing before with
  | nil => simp [splitFirst?]
  | cons d cs ih =>
    rw [splitFirst?]
    by_cases hmark : d = c
    · rw [if_pos hmark, hmark]
      cases before with
      | nil => simp [eq_comm]
      | cons b before =>
        simp only [Option.some.injEq, Prod.mk.injEq, List.nil_eq, reduceCtorEq, false_and,
          List.cons_append, List.cons.injEq, List.mem_cons, not_or, false_iff]
        rintro ⟨⟨hne, -⟩, heq, -⟩
        exact hne heq
    · rw [if_neg hmark, Option.map_eq_some_iff]
      constructor
      · rintro ⟨⟨front, back⟩, hsplit, hparts⟩
        obtain ⟨rfl, rfl⟩ := Prod.mk.inj hparts
        obtain ⟨hnone, rfl⟩ := ih.mp hsplit
        simp [hnone, Ne.symm hmark]
      · rintro ⟨hnone, heq⟩
        cases before with
        | nil => exact absurd (List.cons.inj heq).1 hmark
        | cons b before =>
          obtain ⟨rfl, rfl⟩ := List.cons.inj heq
          exact ⟨(before, after), ih.mpr ⟨fun h => hnone (List.mem_cons_of_mem _ h), rfl⟩, rfl⟩

/-- A text without the mark is not split. -/
theorem splitFirst?_eq_none (h : c ∉ cs) : splitFirst? c cs = none := by
  induction cs with
  | nil => rfl
  | cons d cs ih =>
    rw [List.mem_cons, not_or] at h
    rw [splitFirst?, if_neg (Ne.symm h.1), ih h.2]
    rfl

theorem dropTrailing_eq_rdropWhile (p : Char → Bool) (cs : List Char) :
    dropTrailing p cs = cs.rdropWhile p := rfl

/-- What is dropped at the end can be left out before. -/
theorem dropTrailing_append {p : Char → Bool} (h : ∀ c ∈ after, p c = true) :
    dropTrailing p (cs ++ after) = dropTrailing p cs := by
  rw [dropTrailing, List.reverse_append,
    List.dropWhile_append_of_pos fun c hc => h c (List.mem_reverse.mp hc), ← dropTrailing]

/-- The text is the core with blanks around it, and the core neither begins nor ends with one. -/
structure Trims (text core : List Char) : Prop where
  text_eq : ∃ before after, (∀ c ∈ before, isBlank c = true) ∧ (∀ c ∈ after, isBlank c = true) ∧
    text = before ++ core ++ after
  first : ∀ c rest, core = c :: rest → isBlank c = false
  last : ∀ c rest, core = rest ++ [c] → isBlank c = false

/-- Trimming removes blanks on both sides and nothing else. -/
theorem trims_trimBlanks (text : List Char) : Trims text (trimBlanks text) := by
  rw [trimBlanks, dropTrailing_eq_rdropWhile]
  constructor
  case text_eq =>
    refine ⟨text.takeWhile isBlank, (text.dropWhile isBlank).rtakeWhile isBlank,
      fun c hc => List.mem_takeWhile_imp hc, fun c hc => List.mem_rtakeWhile_imp hc, ?_⟩
    rw [List.append_assoc, List.rdropWhile_append_rtakeWhile, List.takeWhile_append_dropWhile]
  case first =>
    intro c rest hcore
    obtain ⟨tail, htail⟩ := List.rdropWhile_prefix isBlank (text.dropWhile isBlank)
    have hnot := List.head?_dropWhile_not isBlank text
    rw [hcore] at htail
    rw [← htail] at hnot
    simpa using hnot
  case last =>
    intro c rest hcore
    have hnot := List.rdropWhile_last_not isBlank (text.dropWhile isBlank) (by simp [hcore])
    simpa [hcore] using hnot

/-- A text has one core only. -/
theorem Trims.trimBlanks_eq (h : Trims text core) : trimBlanks text = core := by
  obtain ⟨⟨before, after, hbefore, hafter, rfl⟩, hfirst, hlast⟩ := h
  rw [trimBlanks, List.append_assoc, List.dropWhile_append_of_pos hbefore]
  cases core with
  | nil =>
    rw [List.nil_append, List.dropWhile_eq_nil_iff.mpr hafter]
    rfl
  | cons c rest =>
    have hblank : ¬ isBlank c = true := by simp [hfirst c rest rfl]
    rw [List.cons_append, List.dropWhile_cons_of_neg hblank, ← List.cons_append,
      dropTrailing_append hafter, dropTrailing_eq_rdropWhile, List.rdropWhile_eq_self_iff]
    intro hne
    have hend := hlast _ _ (List.dropLast_append_getLast hne).symm
    simp [hend]

/-- A text is trimmed to a core exactly where that is all but the blanks around it. -/
theorem trimBlanks_eq_iff : trimBlanks text = core ↔ Trims text core := by
  refine ⟨?_, Trims.trimBlanks_eq⟩
  rintro rfl
  exact trims_trimBlanks text

/-- A digit is not a blank. -/
theorem isBlank_of_isDigit {c : Char} (h : c.isDigit = true) : isBlank c = false := by
  have hrange : 48 ≤ c.toNat ∧ c.toNat ≤ 57 := by
    simpa [Char.isDigit, UInt32.le_iff_toNat_le] using h
  simp [isBlank, UInt32.le_iff_toNat_le, ← UInt32.toNat_inj]
  omega

/-- No digit of a number is a blank. -/
theorem isBlank_of_mem_toDigits {n : Nat} {c : Char} (h : c ∈ Nat.toDigits 10 n) :
    isBlank c = false :=
  isBlank_of_isDigit (Nat.isDigit_of_mem_toDigits (by omega) (by omega) h)

/-- A text without blanks is its own core. -/
theorem Trims.of_forall (h : ∀ c ∈ text, isBlank c = false) : Trims text text := by
  refine ⟨⟨[], [], by simp, by simp, by simp⟩, ?_, ?_⟩
  · rintro c rest rfl
    exact h c List.mem_cons_self
  · rintro c rest rfl
    exact h c (List.mem_append_right _ (List.mem_singleton_self c))

end ChunkedFile.Text
