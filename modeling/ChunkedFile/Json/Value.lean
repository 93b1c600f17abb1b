import ChunkedFile.Text.Hex
import ChunkedFile.Size

/-!
# JSON documents

A document as it is written: numbers and strings keep their literals, so that what one denotes is
decided where it is used. A string literal whose escapes pair up wrongly denotes no text, and a
number with a fraction denotes no count; a field that nobody asks for may hold either.
-/

namespace ChunkedFile

/-- A JSON document. -/
inductive Json where
  | null
  | bool (value : Bool)
  /-- A number as it is written. -/
  | number (literal : List Char)
  /-- A string as it is written between its quotes. -/
  | string (literal : List Char)
  | array (items : List Json)
  /-- Members in the order in which they are written, with their names' literals. -/
  | object (members : List (List Char × Json))

namespace Json

/-- The value of four hexadecimal digits. -/
def hexWord? (a b c d : Char) : Option Nat := do
  let a ← Text.Hex.value? a
  let b ← Text.Hex.value? b
  let c ← Text.Hex.value? c
  let d ← Text.Hex.value? d
  return ((a * 16 + b) * 16 + c) * 16 + d

/-- The character that a letter after a backslash stands for. -/
def escaped? : Char → Option Char
  | '"' => some '"'
  | '\\' => some '\\'
  | '/' => some '/'
  | 'b' => some '\x08'
  | 'f' => some '\x0c'
  | 'n' => some '\n'
  | 'r' => some '\r'
  | 't' => some '\t'
  | _ => none

/-- The text that a string literal denotes. Escapes of four digits are units of UTF-16, so a high
unit has to be followed by a low one and a low one may not stand alone. -/
def unescape? : List Char → Option (List Char)
  | [] => some []
  | '\\' :: 'u' :: a :: b :: c :: d :: rest =>
    match hexWord? a b c d with
    | none => none
    | some unit =>
      if unit < 0xD800 ∨ 0xE000 ≤ unit then (unescape? rest).map (Char.ofNat unit :: ·)
      else if 0xDC00 ≤ unit then none
      else
        match rest with
        | '\\' :: 'u' :: a :: b :: c :: d :: rest =>
          match hexWord? a b c d with
          | none => none
          | some low =>
            if 0xDC00 ≤ low ∧ low < 0xE000 then
              (unescape? rest).map
                (Char.ofNat ((unit - 0xD800) * 0x400 + (low - 0xDC00) + 0x10000) :: ·)
            else none
        | _ => none
  | '\\' :: c :: rest =>
    match escaped? c with
    | some e => (unescape? rest).map (e :: ·)
    | none => none
  | '\\' :: [] => none
  | c :: rest => (unescape? rest).map (c :: ·)

/-- How a character is written in a string. -/
def escapeChar (c : Char) : List Char :=
  if c = '"' then ['\\', '"']
  else if c = '\\' then ['\\', '\\']
  else if c = '\x08' then ['\\', 'b']
  else if c = '\x0c' then ['\\', 'f']
  else if c = '\n' then ['\\', 'n']
  else if c = '\r' then ['\\', 'r']
  else if c = '\t' then ['\\', 't']
  else if c.val < 0x20 then
    ['\\', 'u', '0', '0', Text.Hex.lowerDigit (c.toNat / 16), Text.Hex.lowerDigit (c.toNat % 16)]
  else [c]

/-- The literal of a text. -/
def escape (text : List Char) : List Char := text.flatMap escapeChar

/-- The text of a literal. -/
def literalText? (literal : List Char) : Option String := (unescape? literal).map String.ofList

/-- The string that denotes a text. -/
def ofString (text : String) : Json := .string (escape text.toList)

/-- The number that denotes a count. -/
def ofNat (n : Nat) : Json := .number (Nat.toDigits 10 n)

/-- A value, or null for none. -/
def ofOption {α : Type} (f : α → Json) : Option α → Json
  | none => .null
  | some a => f a

/-- A record with members of the given names. -/
def record (members : List (String × Json)) : Json :=
  .object (members.map fun (name, value) => (escape name.toList, value))

/-- The text of a string. -/
def string? : Json → Option String
  | .string literal => literalText? literal
  | _ => none

/-- A truth value. -/
def bool? : Json → Option Bool
  | .bool value => some value
  | _ => none

/-- The value of some digits. -/
def digitsValue (digits : List Char) : Nat :=
  digits.foldl (fun value c => 10 * value + (c.toNat - 48)) 0

/-- The count that a number denotes when it is written in digits alone. -/
def nat? : Json → Option Nat
  | .number literal =>
    if literal ≠ [] ∧ literal.all Char.isDigit then some (digitsValue literal) else none
  | _ => none

/-- A size of 64 bits, written in digits alone. -/
def size? (json : Json) : Option UInt64 := json.nat?.bind Size.ofNat?

/-- The items of an array, each read by `f`. -/
def list? {α : Type} (f : Json → Option α) : Json → Option (List α)
  | .array items => items.mapM f
  | _ => none

/-- A value that may be null. -/
def nullable? {α : Type} (f : Json → Option α) : Json → Option (Option α)
  | .null => some none
  | json => (f json).map some

/-- The members of an object by the texts of their names. -/
def namedMembers? : List (List Char × Json) → Option (List (String × Json)) :=
  List.mapM fun (name, value) => (literalText? name).map (·, value)

/-- The value under a name, where no two members have that name. -/
def uniqueMember? (members : List (String × Json)) (name : String) : Option (Option Json) :=
  match members.filter (·.1 == name) with
  | [] => some none
  | [(_, value)] => some (some value)
  | _ => none

/-- The fields of a record with the given names. A record is written as an object, whose other
members are passed over, or as an array of its first fields in order. -/
def fields? (names : List String) : Json → Option (List (Option Json))
  | .object members => do
    let members ← namedMembers? members
    names.mapM (uniqueMember? members)
  | .array items =>
    if items.length ≤ names.length then
      some (items.map some ++ List.replicate (names.length - items.length) none)
    else none
  | _ => none

/-- A field that has to be there. -/
def required? {α : Type} (f : Json → Option α) (field : Option Json) : Option α := field.bind f

/-- A field with a value for when it is not there. -/
def optional? {α : Type} (f : Json → Option α) (default : α) : Option Json → Option α
  | none => some default
  | some json => f json

end Json

end ChunkedFile
