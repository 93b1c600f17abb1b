import ChunkedFile.Text.Hex
import ChunkedFile.Yaml.Cursor
import ChunkedFile.Yaml.Token

/-!
# Names and directives

The lexemes of anchors, aliases, tags and directives.
-/

namespace ChunkedFile.Yaml

/-- The text of some lexeme. -/
def lexeme (chars : List Char) : String := String.ofList chars

/-- The name of an anchor or an alias after its indicator. -/
def anchorName? (c : Cursor) : Option (String × Cursor) :=
  let (name, c) := c.span isWord
  let ended := c.atGap || c.isAtAny ['?', ':', ',', ']', '\x7d', '%', '@', '\x60']
  if name.isEmpty || !ended then none else some (lexeme name, c)

/-- The characters of tags besides those of words. -/
def tagMarks : List Char :=
  [';', '/', '?', ':', '@', '&', '=', '+', '$', '.', '!', '~', '*', '\'', '(', ')']

/-- The octets that percent signs with two digits each denote at the start of a text, as many as
the first of them announces for one character, and the text after them. -/
def tagEscape? (text : List Char) : Option (TagText × List Char) :=
  let octet? : List Char → Option (UInt8 × List Char)
    | '%' :: a :: b :: rest => do
      return (UInt8.ofNat (16 * (← Text.Hex.value? a) + (← Text.Hex.value? b)), rest)
    | _ => none
  let rec trail : Nat → TagText → List Char → Option (TagText × List Char)
    | 0, octets, text => some (octets, text)
    | n + 1, octets, text =>
      match octet? text with
      | some (octet, text) =>
        if octet.toNat / 64 = 2 then trail n (octets ++ [octet]) text else none
      | none => none
  match octet? text with
  | none => none
  | some (octet, text) =>
    if octet < 0x80 then some ([octet], text)
    else if octet.toNat / 32 = 6 then trail 1 [octet] text
    else if octet.toNat / 16 = 14 then trail 2 [octet] text
    else if octet.toNat / 8 = 30 then trail 3 [octet] text
    else none

/-- The octets of a tag, to follow some that have been read; in brackets also the characters of
flow collections count. -/
def tagOctets? (bracketed : Bool) : Nat → TagText → Cursor → Option (TagText × Cursor)
  | 0, octets, c => some (octets, c)
  | fuel + 1, octets, c =>
    match c.rest with
    | [] => some (octets, c)
    | ch :: _ =>
      if ch = '%' then
        match tagEscape? c.rest with
        | none => none
        | some (more, rest) =>
          tagOctets? bracketed fuel (octets ++ more) (c.advance (c.rest.length - rest.length))
      else if isWord ch || ch ∈ tagMarks || (bracketed && ch ∈ [',', '[', ']']) then
        tagOctets? bracketed fuel (octets ++ [ch.toUInt8]) (c.advance 1)
      else some (octets, c)

/-- The part of a tag's text that counts: a zero octet ends it. -/
def TagText.untilZero (text : TagText) : TagText := text.takeWhile (· != 0)

/-- The text of a tag from here on, which may not be empty as it is written, and the place after
it. -/
def tagText? (bracketed : Bool) (c : Cursor) : Option (TagText × Cursor) := do
  let (octets, after) ← tagOctets? bracketed c.rest.length [] c
  if octets.isEmpty then none else return (octets.untilZero, after)

/-- An exclamation mark, a word and perhaps another exclamation mark. -/
def tagHandle? (c : Cursor) : Option (List Char × Cursor) :=
  if !c.isAt '!' then none
  else
    let (word, c) := (c.advance 1).span isWord
    if c.isAt '!' then some ('!' :: word ++ ['!'], c.advance 1) else some ('!' :: word, c)

/-- Whether a handle is of the kind that stands for a declared text. -/
def isNamedHandle (handle : List Char) : Bool := 2 ≤ handle.length && handle.getLast? == some '!'

/-- A tag: in brackets, after a handle, or local. -/
def tag? (flow : Bool) (c : Cursor) : Option (Token × Cursor) := do
  let (token, c) ←
    if c.rest[1]? = some '<' then do
      let (text, c) ← tagText? true (c.advance 2)
      if c.isAt '>' then pure (Token.tag "" text, c.advance 1) else none
    else do
      let (handle, c) ← tagHandle? c
      if isNamedHandle handle then
        let (suffix, c) ← tagText? false c
        pure (Token.tag (lexeme handle) suffix, c)
      else
        let (octets, c) ← tagOctets? false c.rest.length (handle.tail.map Char.toUInt8) c
        let suffix := octets.untilZero
        pure (if suffix.isEmpty then .tag "" (.ofString "!") else .tag "!" suffix, c)
  if c.atGap || (flow && c.isAt ',') then return (token, c) else none

/-- A number of at most nine digits. -/
def versionNumber? (c : Cursor) : Option (Nat × Cursor) :=
  let (digits, c) := c.span Char.isDigit
  if digits.isEmpty || 9 < digits.length then none
  else some (digits.foldl (fun n d => 10 * n + (d.toNat - 48)) 0, c)

/-- A directive, up to the end of its line. -/
def directive? (c : Cursor) : Option (Token × Cursor) := do
  let (name, c) := (c.advance 1).span isWord
  if name.isEmpty || !c.atGap then none
  let c := c.skipWhile isBlank
  let (token, c) ←
    if name = "YAML".toList then do
      let (major, c) ← versionNumber? c
      if !c.isAt '.' then none
      let (minor, c) ← versionNumber? (c.advance 1)
      pure (Token.versionDirective major minor, c)
    else if name = "TAG".toList then do
      let (handle, c) ← tagHandle? c
      if !(handle = ['!'] || handle.getLast? = some '!') then none
      if !(c.char?.any isBlank) then none
      let (start, c) ← tagText? true (c.skipWhile isBlank)
      if !c.atGap then none
      pure (Token.tagDirective (lexeme handle) start, c)
    else none
  return (token, ← c.restOfLine?)

end ChunkedFile.Yaml
