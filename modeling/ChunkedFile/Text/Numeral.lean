import ChunkedFile.Size

/-!
# Numerals

Numbers written in decimal digits with an optional sign, read up to a greatest value. A numeral is
read from the left and the first fault decides, so a numeral that is too long and ends in a stray
letter is too large when it passes the limit before the letter.
-/

namespace ChunkedFile.Text

/-- Why a text is not a numeral of the wanted kind. -/
inductive NumeralError where
  | empty
  | invalidDigit
  | tooLarge
  | tooSmall
  deriving DecidableEq, Repr

/-- The wording of a numeral's fault. -/
def NumeralError.message : NumeralError → String
  | .empty => "cannot parse integer from empty string"
  | .invalidDigit => "invalid digit found in string"
  | .tooLarge => "number too large to fit in target type"
  | .tooSmall => "number too small to fit in target type"

/-- The value of a letter or digit as a digit, letters of either case counting from ten. -/
def digitValue (c : Char) : Nat :=
  if c.isDigit then c.toNat - 48
  else if 'a' ≤ c ∧ c ≤ 'z' then c.toNat - 87
  else if 'A' ≤ c ∧ c ≤ 'Z' then c.toNat - 55
  else 36

/-- The value of a digit of the given radix. -/
def digit? (radix : Nat) (c : Char) : Option Nat :=
  if digitValue c < radix then some (digitValue c) else none

/-- Reads digits onto `value`, with the given fault as soon as the value passes `limit`. -/
def readDigits (radix limit : Nat) (fault : NumeralError) (value : Nat) :
    List Char → Except NumeralError Nat
  | [] => .ok value
  | c :: cs =>
    match digit? radix c with
    | none => .error .invalidDigit
    | some d =>
      if value * radix + d ≤ limit then readDigits radix limit fault (value * radix + d) cs
      else .error fault

/-- Reads an unsigned numeral of at most `limit`; one leading plus sign is allowed. -/
def readUnsigned (radix limit : Nat) : List Char → Except NumeralError Nat
  | [] => .error .empty
  | ['+'] => .error .invalidDigit
  | '+' :: cs => readDigits radix limit .tooLarge 0 cs
  | cs => readDigits radix limit .tooLarge 0 cs

/-- Reads a decimal numeral of 64 bits without a sign bit. -/
def readSize (text : List Char) : Except NumeralError UInt64 :=
  (readUnsigned 10 Size.limit text).map UInt64.ofNat

/-- Reads a decimal numeral of 64 bits with a sign bit. -/
def readInt : List Char → Except NumeralError Int
  | ['-'] => .error .invalidDigit
  | '-' :: cs => (readDigits 10 9223372036854775808 .tooSmall 0 cs).map fun n => -(n : Int)
  | cs => (readUnsigned 10 9223372036854775807 cs).map fun n => (n : Int)

/-- Fills a numeral up with leading zeros to the given width. -/
def padded (width n : Nat) : String :=
  let digits := toString n
  String.ofList (List.replicate (width - digits.length) '0') ++ digits

end ChunkedFile.Text
