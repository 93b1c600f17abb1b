import ChunkedFile.Text.Hex

/-!
# Percent encoding

Letters, digits and `-`, `_`, `.`, `~` stand for themselves in a URL. Every other character is
written as its UTF-8 bytes, each as a percent sign and two upper-case hexadecimal digits.
-/

namespace ChunkedFile.Text.Percent

/-- The characters that stand for themselves. -/
def isUnreserved (c : Char) : Bool :=
  c.isAlphanum || c == '-' || c == '_' || c == '.' || c == '~'

/-- One byte as a percent sign and two digits. -/
def encodeByte (b : UInt8) : List Char :=
  ['%', Hex.upperDigit (b.toNat / 16), Hex.upperDigit (b.toNat % 16)]

/-- One character, as itself or as its bytes. -/
def encodeChar (c : Char) : List Char :=
  if isUnreserved c then [c] else (String.utf8EncodeChar c).flatMap encodeByte

/-- A text with everything but the unreserved characters written as bytes. -/
def encode (s : String) : String := String.ofList (s.toList.flatMap encodeChar)

/-- A path: its slashes stay and the segments between them are encoded. -/
def encodePath (s : String) : String :=
  String.ofList (s.toList.flatMap fun c => if c = '/' then ['/'] else encodeChar c)

end ChunkedFile.Text.Percent
