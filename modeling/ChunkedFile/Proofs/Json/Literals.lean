import ChunkedFile.Json.Reader
import ChunkedFile.Proofs.Text.Numerals

/-!
# Literals of strings and numbers

What is written for a text denotes that text, and a reader cuts it off at its closing quote. What is
written for a count is cut off where the digits end, and denotes that count.
-/

namespace ChunkedFile

/-- A lower-case digit denotes its half byte. -/
theorem Text.Hex.value?_lowerDigit {n : Nat} (h : n < 16) : value? (lowerDigit n) = some n := by
  have hall : ∀ n : Fin 16, value? (lowerDigit n) = some n.val := by decide
  exact hall ⟨n, h⟩

namespace Json

/-- How a character is written: by a letter, by the digits of a control character, or by itself. -/
inductive Escape (c : Char) : List Char → Prop
  | letter (letter : Char) (hletter : letter ≠ 'u') (hescaped : escaped? letter = some c) :
      Escape c ['\\', letter]
  | digits (hcontrol : c.val < 0x20) :
      Escape c ['\\', 'u', '0', '0', Text.Hex.lowerDigit (c.toNat / 16),
        Text.Hex.lowerDigit (c.toNat % 16)]
  | plain (hquote : c ≠ '"') (hslash : c ≠ '\\') (hprintable : ¬ c.val < 0x20) : Escape c [c]

/-- Each character is written as one of its escapes. -/
theorem escape_escapeChar (c : Char) : Escape c (escapeChar c) := by
  unfold escapeChar
  split_ifs with hquote hslash hback hfeed hline hreturn htab hcontrol
  · exact .letter '"' (by decide) (by rw [hquote]; rfl)
  · exact .letter '\\' (by decide) (by rw [hslash]; rfl)
  · exact .letter 'b' (by decide) (by rw [hback]; rfl)
  · exact .letter 'f' (by decide) (by rw [hfeed]; rfl)
  · exact .letter 'n' (by decide) (by rw [hline]; rfl)
  · exact .letter 'r' (by decide) (by rw [hreturn]; rfl)
  · exact .letter 't' (by decide) (by rw [htab]; rfl)
  · exact .digits hcontrol
  · exact .plain hquote hslash hcontrol

/-- The digits of a control character denote its number. -/
theorem hexWord?_control {c : Char} (h : c.val < 0x20) :
    hexWord? '0' '0' (Text.Hex.lowerDigit (c.toNat / 16)) (Text.Hex.lowerDigit (c.toNat % 16)) =
      some c.toNat := by
  have hlt : c.toNat < 32 := h
  have hzero : Text.Hex.value? '0' = some 0 := rfl
  simp only [hexWord?, hzero, Text.Hex.value?_lowerDigit (show c.toNat / 16 < 16 by omega),
    Text.Hex.value?_lowerDigit (show c.toNat % 16 < 16 by omega), Option.bind_eq_bind,
    Option.bind_some, Option.pure_def, Option.some.injEq]
  omega

/-- What is written for a character denotes it. -/
theorem unescape?_escapeChar (c : Char) (rest : List Char) :
    unescape? (escapeChar c ++ rest) = (unescape? rest).map (c :: ·) := by
  have hescape := escape_escapeChar c
  generalize escapeChar c = written at hescape ⊢
  cases hescape with
  | letter letter hletter hescaped => simp [unescape?, hletter, hescaped]
  | digits hcontrol =>
    have hlt : c.toNat < 32 := hcontrol
    have hlow : c.toNat < 0xD800 ∨ 0xE000 ≤ c.toNat := Or.inl (by omega)
    simp [unescape?, hexWord?_control hcontrol, hlow]
  | plain hquote hslash hprintable => simp [unescape?, hslash]

/-- What is written for a text denotes it. -/
theorem unescape?_escape (text : List Char) : unescape? (escape text) = some text := by
  induction text with
  | nil => rfl
  | cons c text ih =>
    rw [escape, List.flatMap_cons, unescape?_escapeChar, ← escape, ih]
    rfl

/-- A reader keeps what is written for a character. -/
theorem stringLiteral?_escapeChar (c : Char) (rest : List Char) :
    stringLiteral? (escapeChar c ++ rest) =
      (stringLiteral? rest).map fun (literal, after) => (escapeChar c ++ literal, after) := by
  have hescape := escape_escapeChar c
  generalize escapeChar c = written at hescape ⊢
  cases hescape with
  | letter letter hletter hescaped => simp [stringLiteral?, hletter, hescaped]
  | digits hcontrol =>
    have hlt : c.toNat < 32 := hcontrol
    have hzero : Text.Hex.value? '0' = some 0 := rfl
    simp [stringLiteral?, Text.Hex.isDigit, hzero,
      Text.Hex.value?_lowerDigit (show c.toNat / 16 < 16 by omega),
      Text.Hex.value?_lowerDigit (show c.toNat % 16 < 16 by omega)]
  | plain hquote hslash hprintable => simp [stringLiteral?, hslash, hprintable]

/-- What is written for a text is cut off at the closing quote. -/
theorem stringLiteral?_escape (text rest : List Char) :
    stringLiteral? (escape text ++ '"' :: rest) = some (escape text, rest) := by
  induction text with
  | nil => rfl
  | cons c text ih =>
    rw [escape, List.flatMap_cons, List.append_assoc, stringLiteral?_escapeChar, ← escape, ih]
    rfl

/-- The text does not go on with a digit, a point or an exponent. -/
def EndsNumber (rest : List Char) : Prop :=
  ∀ c ∈ rest.head?, c.isDigit = false ∧ c ≠ '.' ∧ c ≠ 'e' ∧ c ≠ 'E'

/-- Digits are cut off where they end. -/
theorem digits?_append {digits rest : List Char} (hne : digits ≠ [])
    (hdigits : ∀ c ∈ digits, c.isDigit = true) (hrest : EndsNumber rest) :
    digits? (digits ++ rest) = some (digits, rest) := by
  have hstop : rest.takeWhile Char.isDigit = [] ∧ rest.dropWhile Char.isDigit = rest := by
    cases rest with
    | nil => exact ⟨rfl, rfl⟩
    | cons c cs => simp [(hrest c rfl).1]
  rw [digits?, List.takeWhile_append_of_pos hdigits, List.dropWhile_append_of_pos hdigits,
    hstop.1, hstop.2, List.append_nil]
  cases digits with
  | nil => exact absurd rfl hne
  | cons c digits => rfl

/-- Only zero is written with a zero in front. -/
theorem eq_zero_of_toDigits {n : Nat} {tail : List Char} (h : Nat.toDigits 10 n = '0' :: tail) :
    n = 0 := by
  induction n using Nat.strongRecOn generalizing tail with
  | ind n ih =>
    rw [Nat.toDigits_eq_if (by omega)] at h
    split_ifs at h with hlt
    · rw [List.cons.injEq, Nat.digitChar_eq_zero] at h
      exact h.1
    · obtain ⟨c, cs, hfront, -⟩ := Text.exists_toDigits_eq_cons (n / 10)
      rw [hfront, List.cons_append, List.cons.injEq] at h
      have hzero := ih (n / 10) (by omega) (h.1 ▸ hfront)
      omega

/-- The digits of a count are read without a point or an exponent. -/
theorem wholePart?_toDigits (n : Nat) {rest : List Char} (hrest : EndsNumber rest) :
    wholePart? (Nat.toDigits 10 n ++ rest) = some (Nat.toDigits 10 n, rest) := by
  have hdigits : digits? (Nat.toDigits 10 n ++ rest) = some (Nat.toDigits 10 n, rest) :=
    digits?_append Nat.toDigits_ne_nil (fun _ => Text.isDigit_of_mem_toDigits) hrest
  rw [wholePart?.eq_def]
  split
  · rename_i c cs heq
    obtain ⟨d, ds, hfront, -⟩ := Text.exists_toDigits_eq_cons n
    rw [hfront, List.cons_append, List.cons.injEq] at heq
    have hzero := eq_zero_of_toDigits (heq.1 ▸ hfront)
    rw [hzero, Nat.toDigits_zero, List.cons.injEq] at hfront
    rw [← hfront.2, List.nil_append] at heq
    rw [if_neg (by simp [(hrest c (by rw [heq.2]; rfl)).1]), hzero, Nat.toDigits_zero, heq.2]
  · exact hdigits

/-- A count is cut off where its digits end. -/
theorem numberLiteral?_toDigits (n : Nat) {rest : List Char} (hrest : EndsNumber rest) :
    numberLiteral? (Nat.toDigits 10 n ++ rest) = some (Nat.toDigits 10 n, rest) := by
  have hfraction : fractionPart? rest = some ([], rest) := by
    cases rest with
    | nil => rfl
    | cons c cs => simp [fractionPart?, (hrest c rfl).2.1]
  have hexponent : exponentPart? rest = some ([], rest) := by
    cases rest with
    | nil => rfl
    | cons c cs => simp [exponentPart?, (hrest c rfl).2.2]
  obtain ⟨c, cs, hfront, hdigit⟩ := Text.exists_toDigits_eq_cons n
  have hminus : c ≠ '-' := Text.ne_of_isDigit hdigit '-' rfl
  have hwhole := wholePart?_toDigits n hrest
  rw [hfront, List.cons_append] at hwhole ⊢
  simp [numberLiteral?, hminus, hwhole, hfraction, hexponent]

/-- The digits of a count have its value. -/
theorem digitsValue_toDigits (n : Nat) : digitsValue (Nat.toDigits 10 n) = n :=
  Nat.ofDigitChars_ten_toDigits

end Json

end ChunkedFile
