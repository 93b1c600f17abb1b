import ChunkedFile.Json.Value

/-!
# Reading JSON

The grammar of RFC 8259 and nothing beyond it: no trailing commas, no comments, no leading zeros.
`Json.parse?` takes exactly one document between blanks.
-/

namespace ChunkedFile.Json

/-- The blanks between the parts of a document. -/
def isSpace (c : Char) : Bool := c == ' ' || c == '\n' || c == '\t' || c == '\r'

/-- The text after any blanks. -/
def skipSpace (cs : List Char) : List Char := cs.dropWhile isSpace

/-- A string's literal and the text after its closing quote. -/
def stringLiteral? : List Char → Option (List Char × List Char)
  | [] => none
  | '"' :: rest => some ([], rest)
  | '\\' :: 'u' :: a :: b :: c :: d :: rest =>
    if Text.Hex.isDigit a && Text.Hex.isDigit b && Text.Hex.isDigit c && Text.Hex.isDigit d then
      (stringLiteral? rest).map fun (l, r) => ('\\' :: 'u' :: a :: b :: c :: d :: l, r)
    else none
  | '\\' :: c :: rest =>
    if (escaped? c).isSome then (stringLiteral? rest).map fun (l, r) => ('\\' :: c :: l, r)
    else none
  | '\\' :: [] => none
  | c :: rest =>
    if c.val < 0x20 then none else (stringLiteral? rest).map fun (l, r) => (c :: l, r)

/-- One or more digits. -/
def digits? (cs : List Char) : Option (List Char × List Char) :=
  match cs.takeWhile Char.isDigit with
  | [] => none
  | digits => some (digits, cs.dropWhile Char.isDigit)

/-- The digits before the point: a zero alone, or digits that do not start with one. -/
def wholePart? : List Char → Option (List Char × List Char)
  | '0' :: c :: rest => if c.isDigit then none else some (['0'], c :: rest)
  | cs => digits? cs

/-- A point and digits, where there is a point. -/
def fractionPart? : List Char → Option (List Char × List Char)
  | '.' :: rest => (digits? rest).map fun (digits, rest) => ('.' :: digits, rest)
  | cs => some ([], cs)

/-- An exponent with its letter, where there is one. -/
def exponentPart? : List Char → Option (List Char × List Char)
  | e :: rest =>
    if e = 'e' ∨ e = 'E' then
      match rest with
      | sign :: digits =>
        if sign = '+' ∨ sign = '-' then
          (digits? digits).map fun (digits, rest) => (e :: sign :: digits, rest)
        else (digits? rest).map fun (digits, rest) => (e :: digits, rest)
      | [] => none
    else some ([], e :: rest)
  | [] => some ([], [])

/-- A number's literal and the text after it. -/
def numberLiteral? (cs : List Char) : Option (List Char × List Char) := do
  let (sign, cs) : List Char × List Char := match cs with
    | '-' :: rest => (['-'], rest)
    | cs => ([], cs)
  let (whole, cs) ← wholePart? cs
  let (fraction, cs) ← fractionPart? cs
  let (exponent, cs) ← exponentPart? cs
  return (sign ++ whole ++ fraction ++ exponent, cs)

mutual

/-- A value at the start of a text, and the text after it. -/
def value? : Nat → List Char → Option (Json × List Char)
  | 0, _ => none
  | fuel + 1, cs =>
    match cs with
    | 'n' :: 'u' :: 'l' :: 'l' :: rest => some (.null, rest)
    | 't' :: 'r' :: 'u' :: 'e' :: rest => some (.bool true, rest)
    | 'f' :: 'a' :: 'l' :: 's' :: 'e' :: rest => some (.bool false, rest)
    | '"' :: rest => (stringLiteral? rest).map fun (l, rest) => (.string l, rest)
    | '[' :: rest =>
      match skipSpace rest with
      | ']' :: rest => some (.array [], rest)
      | rest => (items? fuel rest).map fun (items, rest) => (.array items, rest)
    | '\x7b' :: rest =>
      match skipSpace rest with
      | '\x7d' :: rest => some (.object [], rest)
      | rest => (members? fuel rest).map fun (members, rest) => (.object members, rest)
    | cs => (numberLiteral? cs).map fun (l, rest) => (.number l, rest)

/-- One or more items up to the closing bracket. -/
def items? : Nat → List Char → Option (List Json × List Char)
  | 0, _ => none
  | fuel + 1, cs =>
    match value? fuel cs with
    | none => none
    | some (item, rest) =>
      match skipSpace rest with
      | ']' :: rest => some ([item], rest)
      | ',' :: rest =>
        (items? fuel (skipSpace rest)).map fun (items, rest) => (item :: items, rest)
      | _ => none

/-- One or more members up to the closing brace. -/
def members? : Nat → List Char → Option (List (List Char × Json) × List Char)
  | 0, _ => none
  | fuel + 1, cs =>
    match cs with
    | '"' :: rest =>
      match stringLiteral? rest with
      | none => none
      | some (name, rest) =>
        match skipSpace rest with
        | ':' :: rest =>
          match value? fuel (skipSpace rest) with
          | none => none
          | some (value, rest) =>
            match skipSpace rest with
            | '\x7d' :: rest => some ([(name, value)], rest)
            | ',' :: rest =>
              (members? fuel (skipSpace rest)).map fun (members, rest) =>
                ((name, value) :: members, rest)
            | _ => none
        | _ => none
    | _ => none

end

/-- The document that a text is. -/
def parse? (text : String) : Option Json :=
  let cs := text.toList
  match value? (cs.length + 1) (skipSpace cs) with
  | some (json, rest) => if (skipSpace rest).isEmpty then some json else none
  | none => none

end ChunkedFile.Json
