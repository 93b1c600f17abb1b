import ChunkedFile.Yaml.Name
import ChunkedFile.Yaml.Scalar

/-!
# From text to tokens

Tokens are collected from left to right. Where a mapping key is written without an indicator, that
it is one is known only when the colon comes: until then its place among the tokens is kept as a
candidate, one for each flow collection around. A candidate lapses at the end of its line or after
1024 octets.
-/

namespace ChunkedFile.Yaml

/-- A place among the tokens at which a mapping key may begin. -/
structure KeyCandidate where
  /-- Whether nothing else may begin there. -/
  required : Bool
  /-- The number of tokens before. -/
  position : Nat
  index : Nat
  line : Nat
  column : Nat
  deriving DecidableEq, Repr

/-- The tokens up to a place. -/
structure Layout where
  cursor : Cursor
  tokens : Array Token := #[]
  /-- One more than the column of the innermost block collection; zero outside of all. -/
  indent : Nat := 0
  /-- The same for the collections around it. -/
  outer : List Nat := []
  /-- The candidate of each flow collection around, the innermost first, and that outside them. -/
  candidates : List (Option KeyCandidate) := [none]
  /-- Whether a key without an indicator may begin here. -/
  keyAllowed : Bool := true

namespace Layout

/-- Whether a flow collection is around. -/
def inFlow (l : Layout) : Bool := 1 < l.candidates.length

/-- The layout with a further token. -/
def push (l : Layout) (token : Token) : Layout := { l with tokens := l.tokens.push token }

/-- The layout with a further token, at another place. -/
def pushAt (l : Layout) (token : Token) (cursor : Cursor) : Layout :=
  { l with tokens := l.tokens.push token, cursor }

/-- The layout with a token between others. -/
def insert (l : Layout) (position : Nat) (token : Token) : Layout :=
  { l with tokens := (l.tokens.toList.insertIdx position token).toArray }

/-- The candidate of the innermost collection. -/
def candidate? (l : Layout) : Option KeyCandidate := l.candidates.head?.join

/-- The layout with another candidate for the innermost collection. -/
def setCandidate (l : Layout) (candidate : Option KeyCandidate) : Layout :=
  { l with candidates := candidate :: l.candidates.tail }

/-- Gives up the candidate of the innermost collection, unless it is required. -/
def dropCandidate? (l : Layout) : Option Layout :=
  match l.candidate? with
  | some k => if k.required then none else some (l.setCandidate none)
  | none => some l

/-- Whether a candidate has lapsed at a place. -/
def KeyCandidate.isStale (k : KeyCandidate) (c : Cursor) : Bool :=
  k.line < c.line || k.index + 1024 < c.index

/-- Gives up the candidates that have lapsed, of which none may be required. -/
def dropStale? (l : Layout) : Option Layout :=
  let isStale := fun k => KeyCandidate.isStale k l.cursor
  if l.candidates.any fun k => k.any fun k => isStale k && k.required then none
  else some { l with candidates := l.candidates.map (Option.filter fun k => !isStale k) }

/-- Makes the place here a candidate where a key may begin. -/
def markCandidate? (l : Layout) : Option Layout :=
  if !l.keyAllowed then some l
  else
    l.dropCandidate?.map fun l => l.setCandidate (some {
      required := !l.inFlow && l.indent == l.cursor.column + 1
      position := l.tokens.size
      index := l.cursor.index
      line := l.cursor.line
      column := l.cursor.column })

/-- Ends the block collections whose indentation is greater than `limit`, at most `fuel` of
them. -/
def unindent (limit : Nat) : Nat → Layout → Layout
  | 0, l => l
  | fuel + 1, l =>
    if !l.inFlow && limit < l.indent then
      unindent limit fuel { l.push .blockEnd with
        indent := l.outer.headD 0
        outer := l.outer.tail }
    else l

/-- Ends all block collections whose indentation is greater than `limit`. -/
def closeBlocks (l : Layout) (limit : Nat) : Layout :=
  unindent limit (l.outer.length + 1) l

/-- Begins a block collection at a column further than that of the one around, its token standing
at the given position. -/
def openBlock (l : Layout) (column position : Nat) (token : Token) : Layout :=
  if !l.inFlow && l.indent < column + 1 then
    { l.insert position token with
      indent := column + 1
      outer := l.indent :: l.outer }
  else l

/-- Begins a block collection here, where a key may begin. -/
def openBlockHere? (l : Layout) (token : Token) : Option Layout :=
  if l.inFlow then some l
  else if l.keyAllowed then some (l.openBlock l.cursor.column l.tokens.size token)
  else none

/-- Ends whatever a document may have left open. -/
def boundary? (l : Layout) : Option Layout :=
  ((l.closeBlocks 0).dropCandidate?).map fun l => { l with keyAllowed := false }

/-- Takes in an indicator of one character. -/
def indicator (l : Layout) (token : Token) : Layout := l.pushAt token (l.cursor.advance 1)

/-- Begins a flow collection. -/
def openFlow? (l : Layout) (token : Token) : Option Layout :=
  l.markCandidate?.map fun l =>
    { l.indicator token with candidates := none :: l.candidates, keyAllowed := true }

/-- Ends a flow collection. -/
def closeFlow? (l : Layout) (token : Token) : Option Layout :=
  l.dropCandidate?.map fun l =>
    { l.indicator token with
      candidates := if l.inFlow then l.candidates.tail else l.candidates
      keyAllowed := false }

/-- Separates the items of a flow collection. -/
def flowEntry? (l : Layout) : Option Layout :=
  l.dropCandidate?.map fun l => { l.indicator .flowEntry with keyAllowed := true }

/-- Begins an item of a block sequence. -/
def blockEntry? (l : Layout) : Option Layout := do
  let l ← l.openBlockHere? .blockSequenceStart
  let l ← l.dropCandidate?
  return { l.indicator .blockEntry with keyAllowed := true }

/-- Begins a key that has an indicator. -/
def key? (l : Layout) : Option Layout := do
  let l ← l.openBlockHere? .blockMappingStart
  let l ← l.dropCandidate?
  return { l.indicator .key with keyAllowed := !l.inFlow }

/-- Begins a value: that of the candidate, which is now known to be a key, or of a key with an
indicator. -/
def value? (l : Layout) : Option Layout :=
  match l.candidate? with
  | some k =>
    let l := l.insert k.position .key
    let l := l.openBlock k.column k.position .blockMappingStart
    some { (l.setCandidate none).indicator .value with keyAllowed := false }
  | none =>
    (l.openBlockHere? .blockMappingStart).map fun l =>
      { l.indicator .value with keyAllowed := !l.inFlow }

/-- Takes in a token that may be a key or begin one. -/
def content? (l : Layout) (read : Layout → Option (Token × Cursor)) : Option Layout := do
  let l ← l.markCandidate?
  let (token, cursor) ← read l
  return { l.pushAt token cursor with keyAllowed := false }

/-- Takes in a quoted scalar. -/
def quotedScalar? (l : Layout) (double : Bool) : Option Layout :=
  l.content? fun l =>
    let c := l.cursor.advance 1
    (quoted? double (c.rest.length + 1) [] c).map fun (text, c) =>
      (.scalar (if double then .doubleQuoted else .singleQuoted) (lexeme text), c)

/-- Takes in a block scalar. -/
def blockScalar? (l : Layout) (folding : Bool) : Option Layout := do
  let l ← l.dropCandidate?
  let (text, c) ← block? folding l.indent (l.cursor.advance 1)
  let style : ScalarStyle := if folding then .folded else .literal
  return { l.pushAt (.scalar style (lexeme text)) c with keyAllowed := true }

/-- Takes in a plain scalar; a key may begin on the line after it. -/
def plainScalar? (l : Layout) : Option Layout := do
  let l ← l.markCandidate?
  let c := l.cursor
  let (text, broken, c) ← plain? l.inFlow l.indent (c.rest.length + 1) [] {} c
  return { l.pushAt (.scalar .plain (lexeme text)) c with keyAllowed := broken }

/-- Passes blanks, comments, line breaks and byte order marks. Tabs are no indentation. -/
def skipGaps : Nat → Layout → Layout
  | 0, l => l
  | fuel + 1, l =>
    let tabs := l.inFlow || !l.keyAllowed
    let c := l.cursor.skipOrderMark
    let c := c.skipWhile fun ch => ch == ' ' || (tabs && ch == '\t')
    let c := if c.isAt '#' then c.skipWhile fun ch => !isBreak ch else c
    match c.lineBreak? with
    | some (_, c) => skipGaps fuel { l with cursor := c, keyAllowed := l.keyAllowed || !l.inFlow }
    | none => { l with cursor := c }

/-- The characters with which no plain scalar begins. -/
def indicators : List Char :=
  ['-', '?', ':', ',', '[', ']', '\x7b', '\x7d', '#', '&', '*', '!', '|', '>', '\'', '"', '%', '@',
    '\x60']

/-- Whether a plain scalar begins here: a hyphen, question mark or colon may begin one before other
text. -/
def atPlain (l : Layout) (c : Char) (rest : List Char) : Bool :=
  (!isGap [c] && c ∉ indicators) || (c == '-' && !(rest.head?.any isBlank)) ||
  (!l.inFlow && (c == '?' || c == ':') && !isGap rest)

/-- Takes in the next token, which begins with `c`. -/
def token? (l : Layout) (c : Char) (rest : List Char) : Option Layout :=
  if l.cursor.column = 0 ∧ c = '%' then do
    let l ← l.boundary?
    let (token, cursor) ← directive? l.cursor
    return l.pushAt token cursor
  else if l.cursor.atMarker '-' then
    l.boundary?.map fun l => l.pushAt .documentStart (l.cursor.advance 3)
  else if l.cursor.atMarker '.' then
    l.boundary?.map fun l => l.pushAt .documentEnd (l.cursor.advance 3)
  else if c = '[' then l.openFlow? .flowSequenceStart
  else if c = '\x7b' then l.openFlow? .flowMappingStart
  else if c = ']' then l.closeFlow? .flowSequenceEnd
  else if c = '\x7d' then l.closeFlow? .flowMappingEnd
  else if c = ',' then l.flowEntry?
  else if c = '-' ∧ isGap rest then l.blockEntry?
  else if c = '?' ∧ (l.inFlow ∨ isGap rest) then l.key?
  else if c = ':' ∧ (l.inFlow ∨ isGap rest) then l.value?
  else if c = '*' then
    l.content? fun l => (anchorName? (l.cursor.advance 1)).map fun (name, c) => (.alias name, c)
  else if c = '&' then
    l.content? fun l => (anchorName? (l.cursor.advance 1)).map fun (name, c) => (.anchor name, c)
  else if c = '!' then l.content? fun l => tag? l.inFlow l.cursor
  else if c = '|' ∧ !l.inFlow then l.blockScalar? false
  else if c = '>' ∧ !l.inFlow then l.blockScalar? true
  else if c = '\'' then l.quotedScalar? false
  else if c = '"' then l.quotedScalar? true
  else if l.atPlain c rest then l.plainScalar?
  else none

/-- Takes in all tokens to the end of the text, at most `fuel` of them. -/
def run : Nat → Layout → Option (Array Token)
  | 0, _ => none
  | fuel + 1, l => do
    let l := skipGaps (l.cursor.rest.length + 1) l
    let l ← l.dropStale?
    let l := l.closeBlocks (l.cursor.column + 1)
    match l.cursor.rest with
    | [] =>
      let l ← l.boundary?
      return (l.push .streamEnd).tokens
    | c :: rest => run fuel (← l.token? c rest)

end Layout

/-- The tokens of a text. -/
def tokens? (text : String) : Option (List Token) := do
  let cursor ← Cursor.ofText? text
  let tokens ← Layout.run (cursor.rest.length + 1) { cursor }
  return tokens.toList

end ChunkedFile.Yaml
