import ChunkedFile.Proofs.Text.Numerals
import ChunkedFile.Proofs.Text.Parts
import ChunkedFile.Time.Instant

/-!
# Instants are read as they are written

Every field of an instant is written in digits, and behind each of them stands something else or the
greatest number of digits that is read, so each field is read back as it was. A leap second is
written as second 60 of its minute, and the fraction in as many digits as it needs.
-/

namespace ChunkedFile

namespace Text

variable {width n : Nat}

/-- A number that fits the width is filled up to exactly that. -/
theorem length_padded (hwidth : 0 < width) (h : n < 10 ^ width) :
    (padded width n).toList.length = width := by
  have hle := (Nat.length_toDigits_le_iff (by omega) hwidth).mpr h
  rw [toList_padded, List.length_append, List.length_replicate, ← String.length_toList,
    Nat.toString_eq_ofList_toDigits, String.toList_ofList]
  omega

end Text

namespace Instant

variable {digits rest : List Char} {most value count : Nat}

/-- The text does not go on with a digit. -/
def Stops (rest : List Char) : Prop := ∀ c ∈ rest.head?, c.isDigit = false

/-- Digits are read up to where they stop, or as many as may be. -/
theorem takeDigits_append (hdigits : ∀ c ∈ digits, c.isDigit = true) (hmost : digits.length ≤ most)
    (hrest : digits.length = most ∨ Stops rest) :
    takeDigits most value count (digits ++ rest) =
      (Nat.ofDigitChars 10 digits value, count + digits.length, rest) := by
  induction digits generalizing most value count with
  | nil =>
    cases rest with
    | nil =>
      rw [List.nil_append, takeDigits]
      rfl
    | cons c cs =>
      cases most with
      | zero => rfl
      | succ most =>
        have hc : c.isDigit = false := by
          rcases hrest with hzero | hstops
          · cases hzero
          · exact hstops c rfl
        simp [takeDigits, hc]
  | cons d digits ih =>
    cases most with
    | zero => simp at hmost
    | succ most =>
      rw [List.forall_mem_cons] at hdigits
      simp only [List.length_cons, Nat.add_le_add_iff_right, Nat.add_right_cancel_iff]
        at hmost hrest
      rw [List.cons_append, takeDigits, if_pos hdigits.1, ih hdigits.2 hmost hrest,
        List.length_cons, Nat.add_assoc, Nat.add_comm 1]
      rfl

/-- A text that begins with a digit begins with no blank. -/
theorem dropWhile_isBlank_digits (hne : digits ≠ []) (hdigits : ∀ c ∈ digits, c.isDigit = true) :
    (digits ++ rest).dropWhile Text.isBlank = digits ++ rest := by
  cases digits with
  | nil => exact absurd rfl hne
  | cons c digits =>
    have hblank := Text.isBlank_of_isDigit (hdigits c List.mem_cons_self)
    rw [List.cons_append, List.dropWhile_cons_of_neg (by simp [hblank])]

/-- A number is read from its digits. -/
theorem number?_append (hne : digits ≠ []) (hdigits : ∀ c ∈ digits, c.isDigit = true)
    (hmost : digits.length ≤ most) (hrest : digits.length = most ∨ Stops rest) :
    number? most (digits ++ rest) = some (Nat.ofDigitChars 10 digits 0, rest) := by
  rw [number?, dropWhile_isBlank_digits hne hdigits, takeDigits_append hdigits hmost hrest,
    Nat.zero_add]
  cases digits with
  | nil => exact absurd rfl hne
  | cons c digits => rfl

/-- A field of two digits is read back. -/
theorem number?_padded {n : Nat} (h : n < 100) (rest : List Char) :
    number? 2 ((Text.padded 2 n).toList ++ rest) = some (n, rest) := by
  have hlength := Text.length_padded (by omega) (show n < 10 ^ 2 from h)
  obtain ⟨hne, hdigits, hvalue⟩ := Text.padded_spec 2 n
  rw [number?_append hne hdigits (Nat.le_of_eq hlength) (Or.inl hlength), hvalue]

/-- Behind a sign a year is read from all its digits. -/
theorem signed_append (hne : digits ≠ []) (hdigits : ∀ c ∈ digits, c.isDigit = true)
    (hrest : Stops rest) :
    year?.signed (digits ++ rest) = some (Nat.ofDigitChars 10 digits 0, rest) := by
  have hmost : digits.length ≤ (digits ++ rest).length := by
    rw [List.length_append]
    exact Nat.le_add_right _ _
  rw [year?.signed, takeDigits_append hdigits hmost (Or.inr hrest), Nat.zero_add]
  cases digits with
  | nil => exact absurd rfl hne
  | cons c digits => rfl

/-- A year is read back, in four digits or with its sign. -/
theorem year?_yearText (year : Int) (hrest : Stops rest) :
    year? ((yearText year).toList ++ rest) = some (year, rest) := by
  obtain ⟨hne, hdigits, hvalue⟩ := Text.padded_spec 4 year.natAbs
  have hsigned := signed_append hne hdigits hrest
  rw [hvalue] at hsigned
  by_cases hplain : 0 ≤ year ∧ year ≤ 9999
  · have htext : yearText year = Text.padded 4 year.natAbs := by
      rw [yearText, if_pos hplain, show year.toNat = year.natAbs by omega]
    have hlength := Text.length_padded (by decide : 0 < 4) (show year.natAbs < 10 ^ 4 by omega)
    have hstart (sign : Char) (tail : List Char) (hsign : sign.isDigit = false) :
        (Text.padded 4 year.natAbs).toList ++ rest ≠ sign :: tail := by
      intro heq
      obtain ⟨c, cs, hcs⟩ := List.exists_cons_of_ne_nil hne
      rw [hcs, List.cons_append, List.cons.injEq] at heq
      exact Text.ne_of_isDigit (hdigits c (hcs ▸ List.mem_cons_self)) sign hsign heq.1
    rw [htext, year?, dropWhile_isBlank_digits hne hdigits]
    split
    · rename_i tail heq
      exact absurd heq (hstart '-' tail rfl)
    · rename_i tail heq
      exact absurd heq (hstart '+' tail rfl)
    · rw [number?_append hne hdigits (Nat.le_of_eq hlength) (Or.inl hlength), hvalue]
      simp only [Option.map_some, Option.some.injEq, Prod.mk.injEq, and_true]
      omega
  · by_cases hneg : year < 0
    · have htext : (yearText year).toList = '-' :: (Text.padded 4 year.natAbs).toList := by
        rw [yearText, if_neg hplain, if_pos hneg, String.toList_append]
        rfl
      rw [htext, List.cons_append, year?, List.dropWhile_cons_of_neg (by decide)]
      simp only [hsigned, Option.map_some, Option.some.injEq, Prod.mk.injEq, and_true]
      omega
    · have htext : (yearText year).toList = '+' :: (Text.padded 4 year.natAbs).toList := by
        rw [yearText, if_neg hplain, if_neg hneg, String.toList_append]
        rfl
      rw [htext, List.cons_append, year?, List.dropWhile_cons_of_neg (by decide)]
      simp only [hsigned, Option.map_some, Option.some.injEq, Prod.mk.injEq, and_true]
      omega

/-- Some digits of a fraction count by the power of ten that they leave out. -/
theorem fraction?_point {n width : Nat} (hwidth : 0 < width) (hle : width ≤ 9) (h : n < 10 ^ width)
    (hrest : Stops rest) :
    fraction? ('.' :: ((Text.padded width n).toList ++ rest)) =
      some (n * 10 ^ (9 - width), rest) := by
  obtain ⟨hne, hdigits, hvalue⟩ := Text.padded_spec width n
  have hlength := Text.length_padded hwidth h
  have hstop : rest.dropWhile Char.isDigit = rest := by
    cases rest with
    | nil => rfl
    | cons c cs => rw [List.dropWhile_cons_of_neg (by simp [hrest c rfl])]
  rw [fraction?, takeDigits_append hdigits (by omega) (Or.inr hrest), hvalue, hlength,
    Nat.zero_add]
  cases width with
  | zero => cases hwidth
  | succ width => simp only [hstop, Nat.pow_eq]

/-- A fraction is read back in whatever groups of digits it was written. -/
theorem fraction?_fractionText {nano : Nat} (h : nano < 1000000000) (hrest : Stops rest)
    (hpoint : '.' ∉ rest.head?) :
    fraction? ((fractionText nano).toList ++ rest) = some (nano, rest) := by
  have hgroup {width : Nat} (hwidth : 0 < width) (hle : width ≤ 9)
      (hexact : nano % 10 ^ (9 - width) = 0) (htext : fractionText nano =
        "." ++ Text.padded width (nano / 10 ^ (9 - width))) :
      fraction? ((fractionText nano).toList ++ rest) = some (nano, rest) := by
    have hsplit : 10 ^ 9 = 10 ^ width * 10 ^ (9 - width) := by
      rw [← Nat.pow_add, Nat.add_sub_cancel' hle]
    have hlt : nano / 10 ^ (9 - width) < 10 ^ width := by
      rw [Nat.div_lt_iff_lt_mul (Nat.pow_pos (by omega)), ← hsplit]
      exact h
    rw [htext, String.toList_append]
    refine (fraction?_point hwidth hle hlt hrest).trans ?_
    rw [Nat.div_mul_cancel (Nat.dvd_of_mod_eq_zero hexact)]
  by_cases hzero : nano = 0
  · subst hzero
    rw [fractionText, if_pos rfl]
    cases rest with
    | nil => rfl
    | cons c cs =>
      have hne : c ≠ '.' := fun hc => hpoint (by rw [hc]; rfl)
      simp [fraction?, hne]
  by_cases hmillis : nano % 1000000 = 0
  · exact hgroup (by decide : 0 < 3) (by decide) hmillis (by
      rw [fractionText, if_neg hzero, if_pos hmillis]
      rfl)
  by_cases hmicros : nano % 1000 = 0
  · exact hgroup (by decide : 0 < 6) (by decide) hmicros (by
      rw [fractionText, if_neg hzero, if_neg hmillis, if_pos hmicros]
      rfl)
  · exact hgroup (by decide : 0 < 9) (by decide) (Nat.mod_one nano) (by
      rw [fractionText, if_neg hzero, if_neg hmillis, if_neg hmicros, Nat.sub_self, Nat.pow_zero,
        Nat.div_one])

/-- The text of some fields. -/
def fieldsText (year : Int) (month day hour minute second nano : Nat) : String :=
  yearText year ++ "-" ++ Text.padded 2 month ++ "-" ++ Text.padded 2 day ++ "T" ++
    Text.padded 2 hour ++ ":" ++ Text.padded 2 minute ++ ":" ++ Text.padded 2 second ++
    fractionText nano ++ "Z"

/-- The fields of a text are read back; second 60 is in a leap second. -/
theorem parse?_fieldsText (year : Int) {month day hour minute second nano : Nat}
    (hmonth : month < 100) (hday : day < 100) (hhour : hour < 100) (hminute : minute < 100)
    (hsecond : second < 100) (hnano : nano < 1000000000) :
    parse? (fieldsText year month day hour minute second nano) =
      if second = 60 then ofFields? year month day hour minute 59 (nano + 1000000000)
      else ofFields? year month day hour minute second nano := by
  have hliteral (c : Char) (rest : List Char) (hblank : Text.isBlank c = false) :
      literal? c (c :: rest) = some rest := by
    rw [literal?, List.dropWhile_cons_of_neg (by simp [hblank])]
    exact if_pos rfl
  have htext : (fieldsText year month day hour minute second nano).toList =
      (yearText year).toList ++ '-' :: ((Text.padded 2 month).toList ++
        '-' :: ((Text.padded 2 day).toList ++ 'T' :: ((Text.padded 2 hour).toList ++
          ':' :: ((Text.padded 2 minute).toList ++ ':' :: ((Text.padded 2 second).toList ++
            ((fractionText nano).toList ++ ['Z'])))))) := by
    simp [fieldsText]
  have hyear (rest : List Char) :
      year? ((yearText year).toList ++ '-' :: rest) = some (year, '-' :: rest) :=
    year?_yearText year (by simp [Stops])
  have hfraction : fraction? ((fractionText nano).toList ++ ['Z']) = some (nano, ['Z']) :=
    fraction?_fractionText hnano (by simp [Stops]) (by simp)
  have hoffset : offset? (['Z'].dropWhile Text.isBlank) = some (0, []) := rfl
  have hread {α β : Type} {first : Option α} {a : α} (hfirst : first = some a) (f : α → Option β) :
      (first >>= f) = f a := by
    rw [hfirst]
    rfl
  -- the reader takes one field after the other, each from the text that begins with it
  rw [parse?, htext]
  refine (hread (hyear _) _).trans ?_
  refine (hread (hliteral '-' _ rfl) _).trans ?_
  refine (hread (number?_padded hmonth _) _).trans ?_
  refine (hread (hliteral '-' _ rfl) _).trans ?_
  refine (hread (number?_padded hday _) _).trans ?_
  refine (hread rfl _).trans ?_
  refine (hread (number?_padded hhour _) _).trans ?_
  refine (hread (hliteral ':' _ rfl) _).trans ?_
  refine (hread (number?_padded hminute _) _).trans ?_
  refine (hread (hliteral ':' _ rfl) _).trans ?_
  refine (hread (number?_padded hsecond _) _).trans ?_
  refine (hread hfraction _).trans ?_
  refine (hread hoffset _).trans ?_
  refine (hread (if_pos ⟨rfl, by decide, by decide⟩) _).trans ?_
  by_cases hleap : second = 60 <;> simp [hleap]

/-- The fields of an instant make that instant. -/
theorem ofFields?_self (t : Instant) :
    ofFields? t.year t.month t.day t.hour t.minute t.second t.nano = some t :=
  dif_pos ⟨⟨t.year_ge, t.year_le, t.month_pos, t.month_le⟩,
    ⟨t.day_pos, t.day_le, t.hour_lt, t.minute_lt⟩, t.second_lt, t.nano_lt, t.leap⟩

/-- What is written for an instant is read as that instant. -/
theorem parse?_render (t : Instant) : parse? t.render = some t := by
  have hmonth := t.month_le
  have hday : t.day < 100 := by
    have hle := t.day_le
    unfold daysInMonth at hle
    split_ifs at hle <;> omega
  have hhour := t.hour_lt
  have hminute := t.minute_lt
  have hsecond := t.second_lt
  have hnano := t.nano_lt
  by_cases hwithin : t.nano < 1000000000
  · have htext : t.render =
        fieldsText t.year t.month t.day t.hour t.minute t.second t.nano := by
      rw [render, renderWith, if_pos hwithin]
      rfl
    rw [htext, parse?_fieldsText t.year (by omega) hday (by omega) (by omega) (by omega) hwithin,
      if_neg (by omega), ofFields?_self]
  · have hlast := t.leap (by omega)
    have htext : t.render = fieldsText t.year t.month t.day t.hour t.minute (t.second + 1)
        (t.nano - 1000000000) := by
      rw [render, renderWith, if_neg hwithin]
      rfl
    rw [htext, parse?_fieldsText t.year (by omega) hday (by omega) (by omega) (by omega)
      (by omega), if_pos (by omega), Nat.sub_add_cancel (by omega), ← hlast, ofFields?_self]

end Instant

end ChunkedFile
