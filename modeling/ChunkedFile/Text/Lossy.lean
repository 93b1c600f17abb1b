/-!
# Decoding bytes that may not be text

Bytes are read as UTF-8. Wherever they are not, the longest run of bytes that could begin a
character, at least one byte, is shown as the replacement character.
-/

namespace ChunkedFile.Text

/-- The replacement character. -/
def replacement : Char := '\ufffd'

/-- What a first byte asks for: the number of bytes that follow, and the least and the greatest
value of the first of them. -/
def sequenceShape (b : UInt8) : Option (Nat × UInt8 × UInt8) :=
  if 0xC2 ≤ b ∧ b ≤ 0xDF then some (1, 0x80, 0xBF)
  else if b = 0xE0 then some (2, 0xA0, 0xBF)
  else if b = 0xED then some (2, 0x80, 0x9F)
  else if 0xE1 ≤ b ∧ b ≤ 0xEF then some (2, 0x80, 0xBF)
  else if b = 0xF0 then some (3, 0x90, 0xBF)
  else if b = 0xF4 then some (3, 0x80, 0x8F)
  else if 0xF1 ≤ b ∧ b ≤ 0xF3 then some (3, 0x80, 0xBF)
  else none

/-- Where decoding stands between two bytes. -/
inductive Utf8State where
  | start
  /-- A character so far, the number of bytes that it lacks, and the bounds of the next one. -/
  | within (value count : Nat) (least greatest : UInt8)

/-- The character of a code point. -/
def scalar (value : Nat) : Char := Char.ofNat value

/-- Decodes one byte at the start of a character. -/
def startSequence (b : UInt8) : Utf8State × List Char :=
  if b < 0x80 then (.start, [scalar b.toNat])
  else
    match sequenceShape b with
    | none => (.start, [replacement])
    | some (count, least, greatest) =>
      (.within (b.toNat % Nat.pow 2 (6 - count)) count least greatest, [])

/-- Decodes one byte. A byte that cannot continue a character ends it and starts afresh. -/
def decodeByte : Utf8State → UInt8 → Utf8State × List Char
  | .start, b => startSequence b
  | .within value count least greatest, b =>
    if least ≤ b ∧ b ≤ greatest then
      let value := value * 64 + b.toNat % 64
      if count ≤ 1 then (.start, [scalar value])
      else (.within value (count - 1) 0x80 0xBF, [])
    else
      let (state, cs) := startSequence b
      (state, replacement :: cs)

/-- Decodes bytes from a state on. -/
def decodeFrom : Utf8State → List UInt8 → List Char
  | .start, [] => []
  | .within .., [] => [replacement]
  | state, b :: rest =>
    let (state, cs) := decodeByte state b
    cs ++ decodeFrom state rest

/-- The text of some bytes, with replacement characters where they are none. -/
def decodeLossy (bytes : ByteArray) : String := String.ofList (decodeFrom .start bytes.toList)

end ChunkedFile.Text
