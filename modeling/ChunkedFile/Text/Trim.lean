/-!
# Trimming

Removing characters from the ends of a text. Blanks are the characters with the Unicode property
White_Space.
-/

namespace ChunkedFile.Text

/-- The characters with the Unicode property White_Space. -/
def isBlank (c : Char) : Bool :=
  (0x09 ≤ c.val && c.val ≤ 0x0D) || c.val == 0x20 || c.val == 0x85 || c.val == 0xA0 ||
  c.val == 0x1680 || (0x2000 ≤ c.val && c.val ≤ 0x200A) || c.val == 0x2028 || c.val == 0x2029 ||
  c.val == 0x202F || c.val == 0x205F || c.val == 0x3000

/-- Drops the characters at the end that satisfy `p`. -/
def dropTrailing (p : Char → Bool) (cs : List Char) : List Char :=
  (cs.reverse.dropWhile p).reverse

/-- Drops the blanks at both ends. -/
def trimBlanks (cs : List Char) : List Char := dropTrailing isBlank (cs.dropWhile isBlank)

/-- The text without the blanks at its ends. -/
def trim (s : String) : String := String.ofList (trimBlanks s.toList)

/-- The text without the slashes at its end. -/
def trimTrailingSlashes (s : String) : String :=
  String.ofList (dropTrailing (· == '/') s.toList)

/-- The text without the slashes at its start. -/
def trimLeadingSlashes (s : String) : String :=
  String.ofList (s.toList.dropWhile (· == '/'))

/-- The text with ASCII letters in lower case and all else unchanged. -/
def asciiLower (s : String) : String := String.ofList (s.toList.map Char.toLower)

/-- What follows `start` in a list that begins with it. -/
def afterStart? (start : List Char) : List Char → Option (List Char) :=
  match start with
  | [] => some
  | c :: start => fun
    | [] => none
    | d :: rest => if c = d then afterStart? start rest else none

/-- The parts before and after the first occurrence of a character. -/
def splitFirst? (c : Char) : List Char → Option (List Char × List Char)
  | [] => none
  | d :: rest =>
    if d = c then some ([], rest)
    else (splitFirst? c rest).map fun (before, after) => (d :: before, after)

end ChunkedFile.Text
