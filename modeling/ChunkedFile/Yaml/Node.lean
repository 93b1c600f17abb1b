import ChunkedFile.Yaml.Layout

/-!
# Documents

The document that a YAML text holds. Anchored scalars can be named by aliases: anchors are numbered
by how many names are known before them, and an alias stands for the last node that bears the
number which its name has where the alias stands.
-/

namespace ChunkedFile.Yaml

/-- A scalar. -/
structure Scalar where
  /-- The tag after its handle has been replaced. -/
  tag : Option TagText := none
  style : ScalarStyle := .plain
  text : String := ""
  deriving DecidableEq, Repr

/-- A node of a document. -/
inductive Node where
  | scalar (value : Scalar)
  | alias (anchor : Nat)
  | sequence (items : List Node)
  | mapping (members : List (Node × Node))

/-- A document. -/
structure Document where
  root : Node
  /-- The anchored nodes by the numbers of their anchors, the last one first; `none` for
  collections. -/
  anchored : List (Nat × Option Scalar)

/-- What is known while a document is composed. -/
structure Composer where
  /-- The tokens that follow. -/
  tokens : List Token
  /-- The texts that handles stand for. -/
  handles : List (String × TagText)
  /-- The number of each anchor's name. -/
  names : List (String × Nat) := []
  anchored : List (Nat × Option Scalar) := []

/-- A step in composing a document. -/
abbrev Compose := StateT Composer Option

namespace Compose

/-- The next token. -/
def peek : Compose Token := fun s =>
  match s.tokens with
  | [] => none
  | token :: _ => some (token, s)

/-- Passes the next token. -/
def skip : Compose Unit := modify fun s => { s with tokens := s.tokens.tail }

/-- Gives the name of an anchor, if there is one, to a node. -/
def bind (anchor : Option String) (value : Option Scalar) : Compose Unit :=
  match anchor with
  | none => pure ()
  | some name => modify fun s =>
    let id := s.names.length
    { s with
      names := (name, id) :: s.names.filter (·.1 != name)
      anchored := (id, value) :: s.anchored }

/-- The node that an alias stands for. -/
def aliased (name : String) : Compose Node := fun s =>
  (s.names.find? (·.1 == name)).map fun (_, id) => (.alias id, s)

/-- A tag with its handle replaced; a handle has to be declared. -/
def resolveTag (handle : String) (suffix : TagText) : Compose TagText := fun s =>
  if handle = "" then some (suffix, s)
  else (s.handles.find? (·.1 == handle)).map fun (_, start) => (start ++ suffix, s)

/-- The anchor and the tag before a node, in any order. -/
def properties : Compose (Option String × Option TagText) := do
  match ← peek with
  | .anchor name =>
    skip
    match ← peek with
    | .tag handle suffix =>
      skip
      return (some name, some (← resolveTag handle suffix))
    | _ => return (some name, none)
  | .tag handle suffix =>
    skip
    match ← peek with
    | .anchor name =>
      skip
      return (some name, some (← resolveTag handle suffix))
    | _ => return (none, some (← resolveTag handle suffix))
  | _ => return (none, none)

/-- The node where none is written. -/
def emptyNode : Node := .scalar {}

mutual

/-- A node; a block collection only where `block` holds, and a sequence that is not indented only
as a key or value of a block mapping. -/
def node : Nat → (block unindented : Bool) → Compose Node
  | 0, _, _ => failure
  | fuel + 1, block, unindented => do
    match ← peek with
    | .alias name =>
      skip
      aliased name
    | _ =>
      let (anchor, tag) ← properties
      let collection := fun (items : Compose Node) => do
        bind anchor none
        items
      match ← peek, block, unindented with
      | .blockEntry, _, true =>
        collection (.sequence <$> unindentedItems fuel)
      | .scalar style text, _, _ =>
        skip
        bind anchor (some ⟨tag, style, text⟩)
        return .scalar ⟨tag, style, text⟩
      | .flowSequenceStart, _, _ =>
        skip
        collection (.sequence <$> flowItems fuel true)
      | .flowMappingStart, _, _ =>
        skip
        collection (.mapping <$> flowMembers fuel true)
      | .blockSequenceStart, true, _ =>
        skip
        collection (.sequence <$> blockItems fuel)
      | .blockMappingStart, true, _ =>
        skip
        collection (.mapping <$> blockMembers fuel)
      | _, _, _ =>
        if anchor.isNone && tag.isNone then failure
        bind anchor (some { tag })
        return .scalar { tag }

/-- The items of a block sequence up to its end. -/
def blockItems : Nat → Compose (List Node)
  | 0 => failure
  | fuel + 1 => do
    match ← peek with
    | .blockEntry =>
      skip
      let item ← match ← peek with
        | .blockEntry | .blockEnd => pure emptyNode
        | _ => node fuel true false
      return item :: (← blockItems fuel)
    | .blockEnd =>
      skip
      return []
    | _ => failure

/-- The items of a sequence that is not indented, up to another token. -/
def unindentedItems : Nat → Compose (List Node)
  | 0 => failure
  | fuel + 1 => do
    match ← peek with
    | .blockEntry =>
      skip
      let item ← match ← peek with
        | .blockEntry | .key | .value | .blockEnd => pure emptyNode
        | _ => node fuel true false
      return item :: (← unindentedItems fuel)
    | _ => return []

/-- The key or the value of a member of a block mapping. -/
def blockPart : Nat → Compose Node
  | 0 => failure
  | fuel + 1 => do
    match ← peek with
    | .key | .value | .blockEnd => return emptyNode
    | _ => node fuel true true

/-- The members of a block mapping up to its end. -/
def blockMembers : Nat → Compose (List (Node × Node))
  | 0 => failure
  | fuel + 1 => do
    match ← peek with
    | .key =>
      skip
      let key ← blockPart fuel
      let value ← match ← peek with
        | .value =>
          skip
          blockPart fuel
        | _ => pure emptyNode
      return (key, value) :: (← blockMembers fuel)
    | .blockEnd =>
      skip
      return []
    | _ => failure

/-- The items of a flow sequence up to its end; a member of a mapping may stand for a mapping. -/
def flowItems : Nat → (first : Bool) → Compose (List Node)
  | 0, _ => failure
  | fuel + 1, first => do
    match ← peek, first with
    | .flowSequenceEnd, _ =>
      skip
      return []
    | .flowEntry, false => skip
    | _, false => failure
    | _, true => pure ()
    match ← peek with
    | .flowSequenceEnd =>
      skip
      return []
    | .key =>
      skip
      let key ← match ← peek with
        | .value | .flowEntry | .flowSequenceEnd =>
          skip
          pure emptyNode
        | _ => node fuel false false
      let value ← match ← peek with
        | .value =>
          skip
          match ← peek with
          | .flowEntry | .flowSequenceEnd => pure emptyNode
          | _ => node fuel false false
        | _ => pure emptyNode
      return .mapping [(key, value)] :: (← flowItems fuel false)
    | _ =>
      let item ← node fuel false false
      return item :: (← flowItems fuel false)

/-- The members of a flow mapping up to its end. -/
def flowMembers : Nat → (first : Bool) → Compose (List (Node × Node))
  | 0, _ => failure
  | fuel + 1, first => do
    match ← peek, first with
    | .flowMappingEnd, _ =>
      skip
      return []
    | .flowEntry, false => skip
    | _, false => failure
    | _, true => pure ()
    match ← peek with
    | .flowMappingEnd =>
      skip
      return []
    | .key =>
      skip
      let key ← match ← peek with
        | .value | .flowEntry | .flowMappingEnd => pure emptyNode
        | _ => node fuel false false
      let value ← match ← peek with
        | .value =>
          skip
          match ← peek with
          | .flowEntry | .flowMappingEnd => pure emptyNode
          | _ => node fuel false false
        | _ => pure emptyNode
      return (key, value) :: (← flowMembers fuel false)
    | _ =>
      let key ← node fuel false false
      return (key, emptyNode) :: (← flowMembers fuel false)

end

end Compose

/-- The handles that need no declaration. -/
def standardHandles : List (String × TagText) :=
  [("!", .ofString "!"), ("!!", .ofString "tag:yaml.org,2002:")]

/-- The handles declared before a document, and the tokens after the declarations. One version may
be declared, and each handle once. -/
def directives? : List Token → Bool → List (String × TagText) →
    Option (List (String × TagText) × List Token)
  | .versionDirective major minor :: tokens, versioned, handles =>
    if versioned || major != 1 || !(minor == 1 || minor == 2) then none
    else directives? tokens true handles
  | .tagDirective handle start :: tokens, versioned, handles =>
    if handles.any (·.1 == handle) then none
    else directives? tokens versioned (handles ++ [(handle, start)])
  | tokens, _, handles => some (handles, tokens)

/-- The tokens after those that end a document; there may be no further document. -/
def isLast : List Token → Bool
  | .documentEnd :: tokens => isLast tokens
  | tokens => tokens == [.streamEnd]

/-- Composes the one document of some tokens. -/
def Document.compose? (content : Compose Node) (composer : Composer) : Option Document := do
  let (root, composer) ← content.run composer
  if isLast composer.tokens then return ⟨root, composer.anchored⟩ else none

/-- The document that a text holds; a text without one holds the empty node. -/
def Document.ofText? (text : String) : Option Document := do
  let tokens ← tokens? text
  let node := Compose.node (4 * tokens.length) true false
  match tokens with
  | [.streamEnd] => return ⟨Compose.emptyNode, []⟩
  | .versionDirective .. :: _ | .tagDirective .. :: _ | .documentStart :: _ =>
    let (handles, tokens) ← directives? tokens false []
    match tokens with
    | .documentStart :: tokens =>
      let content : Compose Node := do
        match ← Compose.peek with
        | .versionDirective .. | .tagDirective .. | .documentStart | .documentEnd | .streamEnd =>
          return Compose.emptyNode
        | _ => node
      Document.compose? content { tokens, handles := handles ++ standardHandles }
    | _ => none
  | _ => Document.compose? node { tokens, handles := standardHandles }

end ChunkedFile.Yaml
