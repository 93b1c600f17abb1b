/-!
# Hexadecimal text of bytes

Two lower-case digits a byte, the high half first.
-/

namespace ChunkedFile.Text.Hex

/-- The lower-case digit of a half byte. -/
def lowerDigit (n : Nat) : Char :=
  if n < 10 then Char.ofNat (48 + n) else Char.ofNat (87 + n)

/-- The upper-case digit of a half byte. -/
def upperDigit (n : Nat) : Char :=
  if n < 10 then Char.ofNat (48 + n) else Char.ofNat (55 + n)

/-- The value of a digit of either case. -/
def value? (c : Char) : Option Nat :=
  if '0' ≤ c ∧ c ≤ '9' then some (c.toNat - 48)
  else if 'a' ≤ c ∧ c ≤ 'f' then some (c.toNat - 87)
  else if 'A' ≤ c ∧ c ≤ 'F' then some (c.toNat - 55)
  else none

/-- A hexadecimal digit of either case. -/
def isDigit (c : Char) : Bool := (value? c).isSome

/-- The digits of a list of bytes. -/
def encodeList : List UInt8 → List Char
  | [] => []
  | b :: rest => lowerDigit (b.toNat / 16) :: lowerDigit (b.toNat % 16) :: encodeList rest

/-- The bytes that pairs of digits denote. -/
def decodeList? : List Char → Option (List UInt8)
  | [] => some []
  | [_] => none
  | high :: low :: rest => do
    let h ← value? high
    let l ← value? low
    return UInt8.ofNat (16 * h + l) :: (← decodeList? rest)

/-- The digits of some bytes. -/
def encode (bytes : ByteArray) : String := String.ofList (encodeList bytes.toList)

/-- The bytes that a text of digits denotes. -/
def decode? (text : String) : Option ByteArray :=
  (decodeList? text.toList).map fun bytes => ByteArray.mk bytes.toArray

end ChunkedFile.Text.Hex
