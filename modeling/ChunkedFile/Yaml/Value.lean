import ChunkedFile.Size
import ChunkedFile.Text.Numeral
import ChunkedFile.Text.Trim
import ChunkedFile.Yaml.Node

/-!
# What scalars denote

A scalar is read as what is wanted of it: as a text it is taken as it stands, while a number or a
truth value has to be written plainly, or literally with the tag of its kind.
-/

namespace ChunkedFile.Yaml

namespace Scalar

/-- The texts that stand for nothing. -/
def isNullText (text : String) : Bool := text ∈ ["null", "Null", "NULL", "~"]

/-- The tag of a kind of scalars. -/
def kindTag (kind : String) : TagText := .ofString ("tag:yaml.org,2002:" ++ kind)

/-- Whether a scalar may denote something of this kind, which is not that of texts. -/
def mayBe (s : Scalar) (kind : String) : Bool :=
  s.style = .plain || (s.style = .literal && s.tag == some (kindTag kind))

/-- A text, or `none` for null: a plain scalar that is empty or stands for nothing, unless it has
the tag of something else. -/
def optional? (s : Scalar) : Option (Option String) :=
  if s.style ≠ .plain then some (some s.text)
  else
    match s.tag with
    | none => some (if s.text = "" || isNullText s.text then none else some s.text)
    | some tag =>
      if tag = kindTag "null" then if isNullText s.text then some none else none
      else some (some s.text)

/-- A truth value. -/
def bool? (s : Scalar) : Option Bool :=
  if !s.mayBe "bool" then none
  else if s.text ∈ ["true", "True", "TRUE"] then some true
  else if s.text ∈ ["false", "False", "FALSE"] then some false
  else none

/-- A numeral of some radix without a sign. -/
def unsigned? (radix : Nat) (digits : List Char) : Option UInt64 :=
  if digits.head? = some '+' then none
  else
    match Text.readUnsigned radix Size.limit digits with
    | .ok n => some (UInt64.ofNat n)
    | .error _ => none

/-- The size that a text denotes: decimal digits without leading zeros, or the digits of another
radix after `0x`, `0o` or `0b`, in each case with an optional plus sign before them. -/
def sizeText? (text : List Char) : Option UInt64 :=
  let text := (Text.afterStart? ['+'] text).getD text
  match text with
  | '0' :: 'x' :: digits => unsigned? 16 digits
  | '0' :: 'o' :: digits => unsigned? 8 digits
  | '0' :: 'b' :: digits => unsigned? 2 digits
  | '0' :: _ :: _ => none
  | _ => unsigned? 10 text

/-- A size. -/
def size? (s : Scalar) : Option UInt64 :=
  if s.mayBe "int" then sizeText? s.text.toList else none

/-- The name in a local tag, where it is a text. -/
def localName? (tag : TagText) : Option String :=
  match tag with
  | 0x21 :: name => String.fromUTF8? ⟨name.toArray⟩
  | _ => none

/-- A name from a list of choices, as a text or as the local tag of nothing. -/
def choice? {α : Type} (ofName? : String → Option α) (s : Scalar) : Option α :=
  match s.tag.bind localName? with
  | some name =>
    if s.style = .plain && (s.text = "" || isNullText s.text) then ofName? name else none
  | none => ofName? s.text

end Scalar

namespace Document

/-- The scalar that a node is or stands for. -/
def scalar? (document : Document) : Node → Option Scalar
  | .scalar value => some value
  | .alias anchor => (document.anchored.lookup anchor).join
  | _ => none

/-- The members of a document that is a mapping, whose keys have to be scalars. A document without
content is a mapping without members. -/
def members? (document : Document) : Option (List (String × Node)) :=
  match document.root with
  | .mapping members =>
    members.mapM fun (key, value) => (document.scalar? key).map fun s => (s.text, value)
  | .scalar ⟨_, .plain, ""⟩ => some []
  | _ => none

/-- The nodes under some names, where no name is given twice. -/
def fields? (document : Document) (names : List String) : Option (List (Option Node)) := do
  let members ← document.members?
  names.mapM fun name =>
    match members.filter (·.1 == name) with
    | [] => some none
    | [(_, value)] => some (some value)
    | _ => none

/-- What a field denotes, with a value for when it is not there. -/
def field? {α : Type} (document : Document) (read : Scalar → Option α) (default : α) :
    Option Node → Option α
  | none => some default
  | some node => (document.scalar? node).bind read

end Document

end ChunkedFile.Yaml
