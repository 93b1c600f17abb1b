/-!
# Cursors

A place in a YAML text: what is left of the text, and the line and column that have been reached.
Columns are counted in characters, distances in octets of UTF-8. Line breaks are normalised as they
are passed, except for the two Unicode separators.
-/

namespace ChunkedFile.Yaml

/-- Whether a character may stand in a text at all. -/
def isAllowed (c : Char) : Bool :=
  c.val == 0x09 || c.val == 0x0A || c.val == 0x0D || (0x20 ≤ c.val && c.val ≤ 0x7E) ||
  c.val == 0x85 || (0xA0 ≤ c.val && c.val ≤ 0xD7FF) || (0xE000 ≤ c.val && c.val ≤ 0xFFFD) ||
  0x10000 ≤ c.val

/-- Spaces and tabs. -/
def isBlank (c : Char) : Bool := c == ' ' || c == '\t'

/-- Characters that end a line. -/
def isBreak (c : Char) : Bool :=
  c == '\r' || c == '\n' || c == '\x85' || c == '\u2028' || c == '\u2029'

/-- Whether what follows is a blank, a line break or the end of the text. -/
def isGap : List Char → Bool
  | [] => true
  | c :: _ => isBlank c || isBreak c

/-- Letters, digits, hyphens and underscores. -/
def isWord (c : Char) : Bool := c.isAlphanum || c == '-' || c == '_'

/-- A place in a text. -/
structure Cursor where
  /-- The text from here on. -/
  rest : List Char
  /-- The number of octets before. -/
  index : Nat := 0
  /-- The number of lines before. -/
  line : Nat := 0
  /-- The number of characters before on this line. -/
  column : Nat := 0
  deriving DecidableEq, Repr

namespace Cursor

/-- Whether the end of the text is reached. -/
def atEnd (c : Cursor) : Bool := c.rest.isEmpty

/-- The character here. -/
def char? (c : Cursor) : Option Char := c.rest.head?

/-- Whether this character is here. -/
def isAt (c : Cursor) (ch : Char) : Bool := c.char? == some ch

/-- Whether one of these characters is here. -/
def isAtAny (c : Cursor) (chs : List Char) : Bool :=
  match c.char? with
  | some ch => ch ∈ chs
  | none => false

/-- Whether a blank, a line break or the end is here. -/
def atGap (c : Cursor) : Bool := isGap c.rest

/-- Whether a line break or the end is here. -/
def atLineEnd (c : Cursor) : Bool :=
  match c.rest with
  | [] => true
  | ch :: _ => isBreak ch

/-- The place after `n` more characters of the same line. -/
def advance (c : Cursor) (n : Nat) : Cursor :=
  let passed := c.rest.take n
  { c with
    rest := c.rest.drop n
    index := passed.foldl (fun index ch => index + ch.utf8Size) c.index
    column := c.column + passed.length }

/-- The characters of the same line from here on that satisfy `p`, and the place after them. -/
def span (c : Cursor) (p : Char → Bool) : List Char × Cursor :=
  let found := c.rest.takeWhile p
  (found, c.advance found.length)

/-- The place after the characters that satisfy `p`. -/
def skipWhile (c : Cursor) (p : Char → Bool) : Cursor := (c.span p).2

/-- The line break here as it counts in a text, and the place after it. -/
def lineBreak? (c : Cursor) : Option (Char × Cursor) :=
  match c.rest with
  | '\r' :: '\n' :: rest => some ('\n', ⟨rest, c.index + 2, c.line + 1, 0⟩)
  | ch :: rest =>
    if isBreak ch then
      let meaning := if ch = '\u2028' ∨ ch = '\u2029' then ch else '\n'
      some (meaning, ⟨rest, c.index + ch.utf8Size, c.line + 1, 0⟩)
    else none
  | [] => none

/-- The place after the line break here, if there is one. -/
def skipBreak (c : Cursor) : Cursor :=
  match c.lineBreak? with
  | some (_, c) => c
  | none => c

/-- The place after blanks and a comment, which have to reach to the end of the line. -/
def restOfLine? (c : Cursor) : Option Cursor :=
  let c := c.skipWhile isBlank
  let c := if c.isAt '#' then c.skipWhile fun ch => !isBreak ch else c
  if c.atLineEnd then some c.skipBreak else none

/-- Whether the line begins here with three of this character and a gap. -/
def atMarker (c : Cursor) (ch : Char) : Bool :=
  c.column == 0 && c.rest.take 3 == [ch, ch, ch] && isGap (c.rest.drop 3)

/-- Whether a marker for the beginning or the end of a document is here. -/
def atDocumentMarker (c : Cursor) : Bool := c.atMarker '-' || c.atMarker '.'

end Cursor

/-- The place after a byte order mark at the beginning of the line, if there is one. The mark takes
a column. -/
def Cursor.skipOrderMark (c : Cursor) : Cursor :=
  if c.column == 0 && c.isAt '\ufeff' then c.advance 1 else c

/-- The place at the beginning of a text; a text with a character that may not stand in one has no
such place. -/
def Cursor.ofText? (text : String) : Option Cursor :=
  if text.toList.all isAllowed then some ⟨text.toList, 0, 0, 0⟩ else none

end ChunkedFile.Yaml
