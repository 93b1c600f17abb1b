import ChunkedFile.Json.Value
import ChunkedFile.Text.FixedPoint

/-!
# Documents that can be held in memory

Where the members of a record are first collected and sorted out later, each of them has to denote
something: strings and names a text, numbers a value within the range of binary floating point with
64 bits, and nothing may be nested deeper than a given bound.
-/

namespace ChunkedFile.Json

/-- Takes in further digits of a number for as long as the number fits 64 bits; also gives the
digits that are left. -/
def takeDigits (value : Nat) : List Char → Nat × List Char
  | [] => (value, [])
  | c :: cs =>
    let next := 10 * value + (c.toNat - 48)
    if next ≤ Size.limit then takeDigits next cs else (value, c :: cs)

/-- What is kept of a number's literal without its sign: the leading digits that fit 64 bits, and
the power of ten by which they count. -/
def decimalParts (literal : List Char) : Nat × Int :=
  let isExponentLetter := fun c => c == 'e' || c == 'E'
  let mantissa := (literal.filter (· != '-')).takeWhile fun c => !isExponentLetter c
  let fraction := (mantissa.dropWhile (· != '.')).drop 1
  let exponent := literal.dropWhile fun c => !isExponentLetter c
  let power := digitsValue (exponent.filter Char.isDigit)
  let (value, dropped) := takeDigits 0 (mantissa.takeWhile (· != '.'))
  let (value, left) := takeDigits value fraction
  (value, (if exponent.contains '-' then -(power : Int) else power) + dropped.length -
    (fraction.length - left.length : Nat))

/-- A number rounded to 53 significant binary digits, halves to even. -/
def roundBinary (n : Nat) : Nat :=
  let unit := Nat.pow 2 (Nat.log2 n - 52)
  Text.roundHalfEven n unit * unit

/-- Whether a number is finite when it is read with 64-bit binary floating point: its digits and its
power of ten are rounded each by itself, and so is their product, which is finite below `2 ^ 1024`
by more than half a unit in the last place. Powers beyond the greatest that is finite are refused
by themselves. -/
def isFinite (literal : List Char) : Bool :=
  let (digits, power) := decimalParts literal
  if digits = 0 || power < 0 then true
  else if 308 < power then false
  else
    roundBinary digits * roundBinary (Nat.pow 10 power.toNat) < Nat.pow 2 1024 - Nat.pow 2 970

mutual

/-- Whether a document denotes something throughout, with at most `depth` levels of nesting. -/
def isStorable (depth : Nat) : Json → Bool
  | .null | .bool _ => true
  | .number literal => isFinite literal
  | .string literal => (unescape? literal).isSome
  | .array items =>
    match depth with
    | 0 => false
    | depth + 1 => itemsStorable depth items
  | .object members =>
    match depth with
    | 0 => false
    | depth + 1 => membersStorable depth members

/-- Whether all items denote something. -/
def itemsStorable (depth : Nat) : List Json → Bool
  | [] => true
  | item :: items => item.isStorable depth && itemsStorable depth items

/-- Whether all names and values denote something. -/
def membersStorable (depth : Nat) : List (List Char × Json) → Bool
  | [] => true
  | (name, value) :: members =>
    (unescape? name).isSome && value.isStorable depth && membersStorable depth members

end

end ChunkedFile.Json
