import ChunkedFile.Text.Hex
import ChunkedFile.Yaml.Cursor

/-!
# Scalars as they are written

The texts of plain, quoted and block scalars. Line breaks inside a plain or quoted scalar are
folded: one break counts as a space, and of more the first is dropped.
-/

namespace ChunkedFile.Yaml

/-- Blanks and line breaks between two words of a scalar. -/
structure Gap where
  /-- Whether a line has ended. -/
  broken : Bool := false
  /-- The blanks before the end of the line. -/
  blanks : List Char := []
  /-- The first line break, unless it was escaped. -/
  first : List Char := []
  /-- The line breaks after the first. -/
  more : List Char := []

namespace Gap

/-- The gap with a further blank, which counts only on the first line. -/
def addBlank (g : Gap) (c : Char) : Gap :=
  if g.broken then g else { g with blanks := g.blanks ++ [c] }

/-- The gap with a further line break. -/
def addBreak (g : Gap) (c : Char) : Gap :=
  if g.broken then { g with more := g.more ++ [c] }
  else { g with broken := true, blanks := [], first := [c] }

/-- What a gap before a further word counts as. -/
def folded (g : Gap) : List Char :=
  if !g.broken then g.blanks
  else if g.first = ['\n'] then if g.more = [] then [' '] else g.more
  else g.first ++ g.more

/-- Reads on a gap of at most `fuel` characters. In a line after the first, no tab may stand before
column `indent`. -/
def read? (indent : Nat) : Nat → Gap → Cursor → Option (Gap × Cursor)
  | 0, g, c => some (g, c)
  | fuel + 1, g, c =>
    match c.rest with
    | [] => some (g, c)
    | ch :: _ =>
      if isBlank ch then
        if g.broken && ch == '\t' && c.column < indent then none
        else read? indent fuel (g.addBlank ch) (c.advance 1)
      else
        match c.lineBreak? with
        | some (b, c) => read? indent fuel (g.addBreak b) c
        | none => some (g, c)

end Gap

/-- The characters that have a meaning of their own in flow collections. -/
def flowIndicators : List Char := [',', '[', ']', '\x7b', '\x7d']

/-- The next word of a plain scalar: up to a gap, a colon before a gap and, in a flow collection,
an indicator, where no indicator may follow a colon. -/
def plainWord? (flow : Bool) : List Char → Option (List Char)
  | [] => some []
  | c :: rest =>
    if isBlank c || isBreak c then some []
    else if c = ':' then
      if flow && (rest.head?.any fun d => d = '?' ∨ d ∈ flowIndicators) then none
      else if isGap rest then some []
      else (plainWord? flow rest).map (c :: ·)
    else if flow && c ∈ flowIndicators then some []
    else (plainWord? flow rest).map (c :: ·)

/-- A plain scalar whose further lines are indented to column `indent`, its text so far being
`text`. Also tells whether a line break follows the scalar. -/
def plain? (flow : Bool) (indent : Nat) :
    Nat → List Char → Gap → Cursor → Option (List Char × Bool × Cursor)
  | 0, text, gap, c => some (text, gap.broken, c)
  | fuel + 1, text, gap, c =>
    if c.atDocumentMarker || c.isAt '#' then some (text, gap.broken, c)
    else
      match plainWord? flow c.rest with
      | none => none
      | some word =>
        let (text, gap) := if word = [] then (text, gap) else (text ++ gap.folded ++ word, {})
        let c := c.advance word.length
        if c.atEnd || !c.atGap then some (text, gap.broken, c)
        else
          match gap.read? indent c.rest.length c with
          | none => none
          | some (gap, c) =>
            if !flow && c.column < indent then some (text, gap.broken, c)
            else plain? flow indent fuel text gap c

/-- The value of hexadecimal digits. -/
def hexValue? (digits : List Char) : Option Nat :=
  digits.foldlM (fun value c => (Text.Hex.value? c).map (16 * value + ·)) 0

/-- The character that `n` hexadecimal digits at the start of a text denote. -/
def hexChar? (n : Nat) (text : List Char) : Option Char :=
  if text.length < n then none
  else
    match hexValue? (text.take n) with
    | some value => if h : value.isValidChar then some (Char.ofNatAux value h) else none
    | none => none

/-- The character that an escape denotes, given the text after the backslash, and the number of
characters of the escape after the backslash. -/
def escape? : List Char → Option (Char × Nat)
  | [] => none
  | c :: rest =>
    match c with
    | '0' => some ('\x00', 1)
    | 'a' => some ('\x07', 1)
    | 'b' => some ('\x08', 1)
    | 't' | '\t' => some ('\t', 1)
    | 'n' => some ('\n', 1)
    | 'v' => some ('\x0b', 1)
    | 'f' => some ('\x0c', 1)
    | 'r' => some ('\r', 1)
    | 'e' => some ('\x1b', 1)
    | ' ' | '"' | '/' | '\\' => some (c, 1)
    | 'N' => some ('\x85', 1)
    | '_' => some ('\xa0', 1)
    | 'L' => some ('\u2028', 1)
    | 'P' => some ('\u2029', 1)
    | 'x' => (hexChar? 2 rest).map (·, 3)
    | 'u' => (hexChar? 4 rest).map (·, 5)
    | 'U' => (hexChar? 8 rest).map (·, 9)
    | _ => none

/-- The next word of a quoted scalar: up to a gap, the closing quote or an escaped line break.
Also tells whether it ends with the latter. -/
def quotedWord? (double : Bool) : Nat → Cursor → Option (List Char × Bool × Cursor)
  | 0, c => some ([], false, c)
  | fuel + 1, c =>
    match c.rest with
    | [] => some ([], false, c)
    | ch :: rest =>
      let go := fun (ch : Char) (n : Nat) =>
        (quotedWord? double fuel (c.advance n)).map fun (word, escaped, c) =>
          (ch :: word, escaped, c)
      if isBlank ch || isBreak ch then some ([], false, c)
      else if double then
        if ch = '"' then some ([], false, c)
        else if ch = '\\' then
          match (c.advance 1).lineBreak? with
          | some (_, c) => some ([], true, c)
          | none =>
            match escape? rest with
            | some (e, n) => go e (n + 1)
            | none => none
        else go ch 1
      else if ch = '\'' then
        if rest.head? = some '\'' then go ch 2 else some ([], false, c)
      else go ch 1

/-- A quoted scalar after its opening quote, its text so far being `text`. -/
def quoted? (double : Bool) : Nat → List Char → Cursor → Option (List Char × Cursor)
  | 0, _, _ => none
  | fuel + 1, text, c =>
    if c.atDocumentMarker || c.atEnd then none
    else
      match quotedWord? double c.rest.length c with
      | none => none
      | some (word, escaped, c) =>
        let text := text ++ word
        if c.isAt (if double then '"' else '\'') then some (text, c.advance 1)
        else
          match Gap.read? 0 c.rest.length { broken := escaped } c with
          | none => none
          | some (gap, c) => quoted? double fuel (text ++ gap.folded) c

/-- What becomes of the line breaks at the end of a block scalar. -/
inductive Chomping where
  /-- None is kept. -/
  | strip
  /-- One is kept. -/
  | clip
  /-- All are kept. -/
  | keep
  deriving DecidableEq, Repr

/-- The chomping that a sign asks for. -/
def chomping? (c : Cursor) : Option Chomping :=
  if c.isAt '+' then some .keep else if c.isAt '-' then some .strip else none

/-- The indentation that a digit asks for, which may not be zero; `none` for the inner value where
there is no digit. -/
def increment? (c : Cursor) : Option (Option Nat × Cursor) :=
  match c.char? with
  | some ch =>
    if ch.isDigit then
      if ch = '0' then none else some (some (ch.toNat - 48), c.advance 1)
    else some (none, c)
  | none => some (none, c)

/-- The header of a block scalar after its indicator, up to the end of the line. -/
def blockHeader? (c : Cursor) : Option (Chomping × Option Nat × Cursor) :=
  match chomping? c with
  | some chomping => do
    let (increment, c) ← increment? (c.advance 1)
    return (chomping, increment, ← c.restOfLine?)
  | none => do
    let (increment, c) ← increment? c
    match increment, chomping? c with
    | some _, some chomping => return (chomping, increment, ← (c.advance 1).restOfLine?)
    | _, _ => return (.clip, increment, ← c.restOfLine?)

/-- Passes the indentation of empty lines and of the next line that is not empty, where `indent` is
the indentation of the scalar, if it is known yet. Gives the line breaks passed and the greatest
column reached. No tab may stand in the indentation. -/
def blockBreaks? (indent : Option Nat) :
    Nat → List Char → Nat → Cursor → Option (List Char × Nat × Cursor)
  | 0, breaks, widest, c => some (breaks, widest, c)
  | fuel + 1, breaks, widest, c =>
    let room := match indent with
      | some n => n - c.column
      | none => c.rest.length
    let c := c.advance ((c.rest.take room).takeWhile (· == ' ')).length
    let widest := max widest c.column
    let within := match indent with
      | some n => c.column < n
      | none => true
    if within && c.isAt '\t' then none
    else
      match c.lineBreak? with
      | some (b, c) => blockBreaks? indent fuel (breaks ++ [b]) widest c
      | none => some (breaks, widest, c)

/-- The lines of a block scalar at column `indent`. `first` and `more` are the line breaks since the
text so far, `afterBlank` tells whether its last line began with a blank. -/
def blockLines? (folding : Bool) (chomping : Chomping) (indent : Nat) :
    Nat → List Char → (afterBlank : Bool) → (first more : List Char) → Cursor →
      Option (List Char × Cursor)
  | 0, text, _, _, _, c => some (text, c)
  | fuel + 1, text, afterBlank, first, more, c =>
    if c.column = indent ∧ !c.atEnd then
      let beginsBlank := c.char?.any isBlank
      let joint :=
        if folding && first == ['\n'] && !afterBlank && !beginsBlank then
          if more = [] then [' '] else more
        else first ++ more
      let (content, c) := c.span fun ch => !isBreak ch
      let (first, c) := match c.lineBreak? with
        | some (b, c) => ([b], c)
        | none => ([], c)
      match blockBreaks? (some indent) (c.rest.length + 1) [] 0 c with
      | none => none
      | some (more, _, c) =>
        blockLines? folding chomping indent fuel (text ++ joint ++ content) beginsBlank first more c
    else
      match chomping with
      | .strip => some (text, c)
      | .clip => some (text ++ first, c)
      | .keep => some (text ++ first ++ more, c)

/-- A block scalar after its indicator, in a collection that is indented to column `parent - 1`. -/
def block? (folding : Bool) (parent : Nat) (c : Cursor) : Option (List Char × Cursor) := do
  let (chomping, increment, c) ← blockHeader? c
  let given := increment.map fun n => n + (parent - 1)
  let (breaks, widest, c) ← blockBreaks? given (c.rest.length + 1) [] 0 c
  let indent := given.getD (max widest (max parent 1))
  blockLines? folding chomping indent (c.rest.length + 1) [] false [] breaks c

end ChunkedFile.Yaml
