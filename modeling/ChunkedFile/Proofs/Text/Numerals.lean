import Mathlib.Algebra.Group.Int.Defs
import Mathlib.Algebra.Group.Nat.Defs
import Mathlib.Tactic.SplitIfs
import ChunkedFile.Text.Numeral

/-!
# Decimal numerals

Digits are read from the left, and a value is refused as soon as it passes the greatest one. Further
digits never make a value less, so what is refused is exactly what is too large in the end. Leading
zeros do not count. A sign before the digits of a size may only be a plus sign.
-/

namespace ChunkedFile.Text

variable {limit value n width : Nat} {fault : NumeralError} {digits : List Char}

/-- Letters count from ten, so only decimal digits are digits. -/
theorem digit?_ten (c : Char) :
    digit? 10 c = if c.isDigit then some (c.toNat - '0'.toNat) else none := by
  unfold digit? digitValue
  by_cases hdigit : c.isDigit = true
  · have hnine : c.toNat ≤ '9'.toNat := by
      simp only [Char.isDigit, Bool.and_eq_true, decide_eq_true_eq] at hdigit
      exact hdigit.2
    have hvalue : '9'.toNat = 57 := rfl
    rw [if_pos hdigit, if_pos hdigit, if_pos (by omega)]
    rfl
  · rw [if_neg hdigit, if_neg hdigit, if_neg]
    split_ifs with hlower hupper
    · have hle : 97 ≤ c.toNat := hlower.1
      omega
    · have hle : 65 ≤ c.toNat := hupper.1
      omega
    · omega

/-- Further digits make a number no smaller. -/
theorem le_ofDigitChars (digits : List Char) (value : Nat) :
    value ≤ Nat.ofDigitChars 10 digits value := by
  induction digits generalizing value with
  | nil => exact Nat.le_refl value
  | cons c digits ih =>
    exact Nat.le_trans (by omega) (ih (10 * value + (c.toNat - '0'.toNat)))

/-- Digits are read exactly where all are decimal and their value is not too large. -/
theorem readDigits_eq_ok_iff (hvalue : value ≤ limit) :
    readDigits 10 limit fault value digits = .ok n ↔
      (∀ c ∈ digits, c.isDigit = true) ∧ Nat.ofDigitChars 10 digits value = n ∧ n ≤ limit := by
  induction digits generalizing value with
  | nil =>
    simp only [readDigits, Except.ok.injEq, List.not_mem_nil, false_implies, implies_true, true_and,
      Nat.ofDigitChars, List.foldl_nil]
    exact ⟨fun h => ⟨h, h ▸ hvalue⟩, fun h => h.1⟩
  | cons c digits ih =>
    rw [readDigits, digit?_ten]
    by_cases hdigit : c.isDigit = true
    · rw [if_pos hdigit]
      have hcons : Nat.ofDigitChars 10 (c :: digits) value =
          Nat.ofDigitChars 10 digits (value * 10 + (c.toNat - '0'.toNat)) := by
        rw [Nat.mul_comm value]
        rfl
      simp only [List.forall_mem_cons, hdigit, true_and, hcons]
      by_cases hfit : value * 10 + (c.toNat - '0'.toNat) ≤ limit
      · rw [if_pos hfit]
        exact ih hfit
      · -- the value is too large already, and what follows does not make it less
        have hle := le_ofDigitChars digits (value * 10 + (c.toNat - '0'.toNat))
        rw [if_neg hfit]
        simp only [reduceCtorEq, false_iff]
        omega
    · simp [hdigit]

/-- A number is written in digits. -/
theorem isDigit_of_mem_toDigits {c : Char} (h : c ∈ Nat.toDigits 10 n) : c.isDigit = true :=
  Nat.isDigit_of_mem_toDigits (by omega) (by omega) h

/-- What is written for a number begins with a digit. -/
theorem exists_toDigits_eq_cons (n : Nat) :
    ∃ c cs, Nat.toDigits 10 n = c :: cs ∧ c.isDigit = true := by
  obtain ⟨c, cs, hfront⟩ := List.exists_cons_of_ne_nil (Nat.toDigits_ne_nil (n := n) (b := 10))
  exact ⟨c, cs, hfront, isDigit_of_mem_toDigits (hfront ▸ List.mem_cons_self)⟩

/-- A digit is told from every character that is none. -/
theorem ne_of_isDigit {c : Char} (h : c.isDigit = true) (other : Char)
    (hother : other.isDigit = false) : c ≠ other := by
  rintro rfl
  rw [h] at hother
  cases hother

/-- Leading zeros do not change a value. -/
theorem ofDigitChars_replicate_append (zeros : Nat) (digits : List Char) :
    Nat.ofDigitChars 10 (List.replicate zeros '0' ++ digits) 0 = Nat.ofDigitChars 10 digits 0 := by
  induction zeros with
  | zero => rfl
  | succ zeros ih => exact ih

/-- A padded number has noughts before its digits. -/
theorem toList_padded (width n : Nat) : (padded width n).toList =
    List.replicate (width - (toString n).length) '0' ++ Nat.toDigits 10 n := by
  rw [padded, String.toList_append, String.toList_ofList, Nat.toString_eq_ofList_toDigits,
    String.toList_ofList]

/-- A number filled up with zeros consists of digits, and they denote it. -/
theorem padded_spec (width n : Nat) : (padded width n).toList ≠ [] ∧
    (∀ c ∈ (padded width n).toList, c.isDigit = true) ∧
      Nat.ofDigitChars 10 (padded width n).toList 0 = n := by
  rw [toList_padded]
  refine ⟨?_, ?_, ?_⟩
  · exact List.append_ne_nil_of_right_ne_nil _ Nat.toDigits_ne_nil
  · intro c hc
    rcases List.mem_append.mp hc with hc | hc
    · rw [List.eq_of_mem_replicate hc]
      rfl
    · exact isDigit_of_mem_toDigits hc
  · rw [ofDigitChars_replicate_append, Nat.ofDigitChars_ten_toDigits]

/-- The text is some decimal digits that denote the number, with a plus sign before them or none. -/
def IsNumeral (text : List Char) (n : Nat) : Prop :=
  ∃ digits, (text = digits ∨ text = '+' :: digits) ∧ digits ≠ [] ∧
    (∀ c ∈ digits, c.isDigit = true) ∧ Nat.ofDigitChars 10 digits 0 = n

/-- Behind a plus sign stand the digits. -/
theorem isNumeral_plus_iff : IsNumeral ('+' :: digits) n ↔
    digits ≠ [] ∧ (∀ c ∈ digits, c.isDigit = true) ∧ Nat.ofDigitChars 10 digits 0 = n := by
  constructor
  · rintro ⟨ds, rfl | heq, hne, hdecimal, hvalue⟩
    · cases hdecimal '+' List.mem_cons_self
    · obtain rfl := (List.cons.inj heq).2
      exact ⟨hne, hdecimal, hvalue⟩
  · rintro ⟨hne, hdecimal, hvalue⟩
    exact ⟨digits, Or.inr rfl, hne, hdecimal, hvalue⟩

/-- A text without a plus sign is digits only. -/
theorem isNumeral_iff_of_unsigned (h : ∀ rest, digits ≠ '+' :: rest) : IsNumeral digits n ↔
    digits ≠ [] ∧ (∀ c ∈ digits, c.isDigit = true) ∧ Nat.ofDigitChars 10 digits 0 = n := by
  constructor
  · rintro ⟨ds, rfl | heq, hne, hdecimal, hvalue⟩
    · exact ⟨hne, hdecimal, hvalue⟩
    · exact absurd heq (h ds)
  · rintro ⟨hne, hdecimal, hvalue⟩
    exact ⟨digits, Or.inl rfl, hne, hdecimal, hvalue⟩

/-- Unsigned numerals are read, and nothing else, where they are not too large. -/
theorem readUnsigned_eq_ok_iff {text : List Char} :
    readUnsigned 10 limit text = .ok n ↔ IsNumeral text n ∧ n ≤ limit := by
  fun_cases readUnsigned 10 limit text with
  | case1 => simp [isNumeral_iff_of_unsigned]
  | case2 => simp [isNumeral_plus_iff]
  | case3 digits hsome =>
    rw [readDigits_eq_ok_iff (Nat.zero_le limit), isNumeral_plus_iff, and_assoc, and_assoc,
      and_iff_right hsome]
  | case4 digits hsome hplus hunsigned =>
    rw [readDigits_eq_ok_iff (Nat.zero_le limit), isNumeral_iff_of_unsigned hunsigned, and_assoc,
      and_assoc, and_iff_right hsome]

/-- A text is read as a size exactly where it is the numeral of that size. -/
theorem readSize_eq_ok_iff {text : List Char} {size : UInt64} :
    readSize text = .ok size ↔ IsNumeral text size.toNat := by
  rw [readSize]
  constructor
  · intro h
    cases hread : readUnsigned 10 Size.limit text with
    | error fault =>
      rw [hread] at h
      cases h
    | ok n =>
      rw [hread] at h
      cases h
      obtain ⟨hnumeral, hle⟩ := readUnsigned_eq_ok_iff.mp hread
      rw [Size.limit] at hle
      rwa [UInt64.toNat_ofNat_of_lt' (Nat.lt_succ_of_le hle)]
  · intro h
    rw [readUnsigned_eq_ok_iff.mpr ⟨h, Size.toNat_le_limit size⟩, Except.map, UInt64.ofNat_toNat]

/-- The text is a numeral of the number, or a minus sign and the digits of its opposite. -/
def IsSigned (text : List Char) (z : Int) : Prop :=
  (∃ n : Nat, IsNumeral text n ∧ z = n) ∨
    ∃ digits, text = '-' :: digits ∧ digits ≠ [] ∧ (∀ c ∈ digits, c.isDigit = true) ∧
      z = -(Nat.ofDigitChars 10 digits 0 : Int)

/-- A minus sign is no part of a numeral. -/
theorem not_isNumeral_minus : ¬ IsNumeral ('-' :: digits) n := by
  rintro ⟨ds, rfl | heq, -, hdecimal, -⟩
  · cases hdecimal '-' List.mem_cons_self
  · cases heq

/-- Behind a minus the digits denote the number below zero. -/
theorem isSigned_minus_iff {z : Int} : IsSigned ('-' :: digits) z ↔
    digits ≠ [] ∧ (∀ c ∈ digits, c.isDigit = true) ∧
      z = -(Nat.ofDigitChars 10 digits 0 : Int) := by
  simp [IsSigned, not_isNumeral_minus]

/-- Without a minus sign the number is not below zero. -/
theorem isSigned_iff_of_unsigned {text : List Char} {z : Int} (h : ∀ rest, text ≠ '-' :: rest) :
    IsSigned text z ↔ ∃ n : Nat, IsNumeral text n ∧ z = n := by
  rw [IsSigned, or_iff_left_iff_imp]
  rintro ⟨digits, rfl, -⟩
  exact absurd rfl (h digits)

private theorem map_cast_eq_ok_iff {ε : Type} {result : Except ε Nat} {f : Int → Int} {z : Int} :
    (result >>= fun m => pure (m : Int)).map f = .ok z ↔ ∃ m : Nat, result = .ok m ∧ f m = z := by
  cases result <;> simp [Except.map, bind, Except.bind, pure, Except.pure]

/-- A text is read as a number with a sign exactly where it is a signed numeral of that number,
which has to fit 64 bits. -/
theorem readInt_eq_ok_iff {text : List Char} {z : Int} :
    readInt text = .ok z ↔ IsSigned text z ∧ -2 ^ 63 ≤ z ∧ z < 2 ^ 63 := by
  fun_cases readInt text with
  | case1 => simp [isSigned_minus_iff]
  | case2 digits hsome =>
    rw [map_cast_eq_ok_iff, isSigned_minus_iff]
    constructor
    · rintro ⟨n, hread, rfl⟩
      obtain ⟨hdecimal, rfl, hle⟩ := (readDigits_eq_ok_iff (Nat.zero_le _)).mp hread
      exact ⟨⟨hsome, hdecimal, rfl⟩, by omega, by omega⟩
    · rintro ⟨⟨-, hdecimal, rfl⟩, hle, -⟩
      exact ⟨_, (readDigits_eq_ok_iff (Nat.zero_le _)).mpr ⟨hdecimal, rfl, by omega⟩, rfl⟩
  | case3 text hne hunsigned =>
    rw [map_cast_eq_ok_iff, isSigned_iff_of_unsigned hunsigned]
    constructor
    · rintro ⟨n, hread, rfl⟩
      obtain ⟨hnumeral, hle⟩ := readUnsigned_eq_ok_iff.mp hread
      exact ⟨⟨n, hnumeral, rfl⟩, by omega, by omega⟩
    · rintro ⟨⟨n, hnumeral, rfl⟩, -, hlt⟩
      exact ⟨n, readUnsigned_eq_ok_iff.mpr ⟨hnumeral, by omega⟩, rfl⟩

/-- The digits of a number are a numeral of it. -/
theorem isNumeral_toDigits (n : Nat) : IsNumeral (Nat.toDigits 10 n) n :=
  ⟨_, Or.inl rfl, Nat.toDigits_ne_nil, fun _ => isDigit_of_mem_toDigits,
    Nat.ofDigitChars_ten_toDigits⟩

/-- What is written for a number is a signed numeral of it. -/
theorem isSigned_toString (z : Int) : IsSigned (toString z).toList z := by
  cases z with
  | ofNat n =>
    have htext : (toString (Int.ofNat n)).toList = Nat.toDigits 10 n := by
      simp [toString, Int.repr, Nat.repr]
    rw [htext]
    exact Or.inl ⟨n, isNumeral_toDigits n, rfl⟩
  | negSucc n =>
    have htext : (toString (Int.negSucc n)).toList = '-' :: Nat.toDigits 10 (n + 1) := by
      simp [toString, Int.repr, Nat.repr]
    rw [htext, isSigned_minus_iff, Nat.ofDigitChars_ten_toDigits]
    exact ⟨Nat.toDigits_ne_nil, fun _ => isDigit_of_mem_toDigits, rfl⟩

end ChunkedFile.Text
