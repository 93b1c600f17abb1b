/-!
# Tokens

The tokens of a YAML text. The beginnings and ends of block collections, which the text shows by
indentation alone, have tokens of their own.
-/

namespace ChunkedFile.Yaml

/-- How a scalar is written. -/
inductive ScalarStyle where
  | plain
  | singleQuoted
  | doubleQuoted
  | literal
  | folded
  deriving DecidableEq, Repr

/-- The text of a tag as octets, which need not be those of a text in UTF-8. -/
abbrev TagText := List UInt8

/-- The octets of a text. -/
def TagText.ofString (text : String) : TagText := text.toUTF8.toList

/-- A token. -/
inductive Token where
  | versionDirective (major minor : Nat)
  | tagDirective (handle : String) (start : TagText)
  | documentStart
  | documentEnd
  | blockSequenceStart
  | blockMappingStart
  | blockEnd
  | flowSequenceStart
  | flowSequenceEnd
  | flowMappingStart
  | flowMappingEnd
  | blockEntry
  | flowEntry
  | key
  | value
  | alias (name : String)
  | anchor (name : String)
  | tag (handle : String) (suffix : TagText)
  | scalar (style : ScalarStyle) (text : String)
  | streamEnd
  deriving DecidableEq, Repr

end ChunkedFile.Yaml
