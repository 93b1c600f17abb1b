import ChunkedFile.Json.Value

/-!
# Writing JSON

Documents are written without blanks, members in their order.
-/

namespace ChunkedFile.Json

mutual

/-- The text of a document. -/
def render : Json → List Char
  | .null => ['n', 'u', 'l', 'l']
  | .bool true => ['t', 'r', 'u', 'e']
  | .bool false => ['f', 'a', 'l', 's', 'e']
  | .number literal => literal
  | .string literal => '"' :: literal ++ ['"']
  | .array [] => ['[', ']']
  | .array (item :: items) => '[' :: render item ++ renderItems items
  | .object [] => ['\x7b', '\x7d']
  | .object (member :: members) => '\x7b' :: renderMember member ++ renderMembers members

/-- The items after the first, up to the closing bracket. -/
def renderItems : List Json → List Char
  | [] => [']']
  | item :: items => ',' :: render item ++ renderItems items

/-- A name and its value. -/
def renderMember : List Char × Json → List Char
  | (name, value) => '"' :: name ++ '"' :: ':' :: render value

/-- The members after the first, up to the closing brace. -/
def renderMembers : List (List Char × Json) → List Char
  | [] => ['\x7d']
  | member :: members => ',' :: renderMember member ++ renderMembers members

end

/-- The text of a document. -/
def text (json : Json) : String := String.ofList json.render

end ChunkedFile.Json
