import ChunkedFile.Json.Reader
import ChunkedFile.Json.Printer
import ChunkedFile.Json.Storable
import ChunkedFile.Plan.Source

/-!
# Plans and their sources as JSON documents

Each type is written as a record with all its fields and read back from one. A plan's source has
the fields of its layout beside its own; the layout is the first of chunks, parts and listing whose
fields are all there and well formed, and any other member has to denote something.
-/

namespace ChunkedFile

open Json

/-- The document of an algorithm. -/
def Algorithm.toJson (a : Algorithm) : Json := ofString a.name

/-- The document of a chunk. -/
def ChunkRef.toJson (c : ChunkRef) : Json :=
  record [("address", ofString c.address), ("size", ofNat c.size.toNat)]

/-- The document of a digest. -/
def ExpectedDigest.toJson (d : ExpectedDigest) : Json :=
  record [("algorithm", d.algorithm.toJson), ("hex", ofString d.hex)]

/-- The document of a plan. -/
def Plan.toJson (plan : Plan) : Json :=
  record [
    ("chunks", .array (plan.chunks.map ChunkRef.toJson)),
    ("expected_digest", ofOption ExpectedDigest.toJson plan.digest),
    ("needs_proxy", .bool plan.proxied)]

/-- The document of a stored entry. -/
def StoredEntry.toJson (e : StoredEntry) : Json :=
  record [
    ("name", ofString e.name),
    ("size", ofNat e.size.toNat),
    ("modified", ofString e.modified.render),
    ("created", ofString e.created.render),
    ("is_dir", .bool e.isDir)]

/-- The document of a shown entry. -/
def LogicalEntry.toJson (e : LogicalEntry) : Json :=
  record [
    ("name", ofString e.name),
    ("size", ofNat e.size.toNat),
    ("modified", ofString e.modified.render),
    ("created", ofString e.created.render),
    ("is_folder", .bool e.isFolder)]

/-- The members of a layout. -/
def Layout.members : Layout → List (String × Json)
  | .chunks refs => [("chunks", .array (refs.map ChunkRef.toJson))]
  | .uniform parts size => [("parts", .array (parts.map ofString)), ("size", ofNat size.toNat)]
  | .listing directory name entries => [
    ("directory", ofString directory),
    ("name", ofString name),
    ("entries", .array (entries.map StoredEntry.toJson))]

/-- The document of a plan's source. -/
def PlanSource.toJson (source : PlanSource) : Json :=
  record <| source.layout.members ++ [
    ("digest", ofOption ofString source.digest),
    ("digest_algorithm", ofOption Algorithm.toJson source.algorithm),
    ("needs_proxy", .bool source.proxied)]

/-- An algorithm, as its name or as a record with that one null member. -/
def Algorithm.ofJson? : Json → Option Algorithm
  | .object [(name, .null)] => (literalText? name).bind ofName?
  | json => json.string?.bind ofName?

/-- A chunk. -/
def ChunkRef.ofJson? (json : Json) : Option ChunkRef :=
  match json.fields? ["address", "size"] with
  | some [address, size] => do
    return ⟨← required? string? address, ← required? size? size⟩
  | _ => none

/-- A digest. -/
def ExpectedDigest.ofJson? (json : Json) : Option ExpectedDigest :=
  match json.fields? ["algorithm", "hex"] with
  | some [algorithm, hex] => do
    return ⟨← required? Algorithm.ofJson? algorithm, ← required? string? hex⟩
  | _ => none

/-- A plan, whatever the sum of its sizes. -/
def Plan.ofJson? (json : Json) : Option Plan :=
  match json.fields? ["chunks", "expected_digest", "needs_proxy"] with
  | some [chunks, digest, proxied] => do
    return {
      chunks := ← required? (list? ChunkRef.ofJson?) chunks
      digest := ← optional? (nullable? ExpectedDigest.ofJson?) none digest
      proxied := ← optional? bool? false proxied }
  | _ => none

/-- An instant. -/
def Instant.ofJson? (json : Json) : Option Instant := json.string?.bind Instant.parse?

/-- A stored entry. -/
def StoredEntry.ofJson? (json : Json) : Option StoredEntry :=
  match json.fields? ["name", "size", "modified", "created", "is_dir"] with
  | some [name, size, modified, created, isDir] => do
    return {
      name := ← required? string? name
      size := ← required? size? size
      modified := ← required? Instant.ofJson? modified
      created := ← required? Instant.ofJson? created
      isDir := ← required? bool? isDir }
  | _ => none

/-- The names of the fields of a plan's source that are not those of its layout. -/
def PlanSource.ownFields : List String := ["digest", "digest_algorithm", "needs_proxy"]

/-- The deepest nesting in the members of a layout. -/
def layoutDepth : Nat := 126

/-- A layout of chunks. -/
def Layout.chunks? (members : Json) : Option Layout :=
  match members.fields? ["chunks"] with
  | some [refs] => do return .chunks (← required? (list? ChunkRef.ofJson?) refs)
  | _ => none

/-- A layout of parts. -/
def Layout.uniform? (members : Json) : Option Layout :=
  match members.fields? ["parts", "size"] with
  | some [parts, size] => do
    return .uniform (← required? (list? string?) parts) (← required? size? size)
  | _ => none

/-- A layout of a listing. -/
def Layout.listing? (members : Json) : Option Layout :=
  match members.fields? ["directory", "name", "entries"] with
  | some [directory, name, entries] => do
    return .listing (← required? string? directory) (← required? string? name)
      (← required? (list? StoredEntry.ofJson?) entries)
  | _ => none

/-- The first layout that some members describe. -/
def Layout.ofMembers? (members : List (List Char × Json)) : Option Layout :=
  if membersStorable layoutDepth members then
    let json := Json.object members
    (Layout.chunks? json).or ((Layout.uniform? json).or (Layout.listing? json))
  else none

/-- A plan's source. -/
def PlanSource.ofJson? : Json → Option PlanSource
  | .object members =>
    let isOwn := fun (name, _) => (literalText? name).any ownFields.contains
    match (Json.object (members.filter isOwn)).fields? ownFields with
    | some [digest, algorithm, proxied] => do
      return {
        layout := ← Layout.ofMembers? (members.filter fun m => !isOwn m)
        digest := ← optional? (nullable? string?) none digest
        algorithm := ← optional? (nullable? Algorithm.ofJson?) none algorithm
        proxied := ← optional? bool? false proxied }
    | _ => none
  | _ => none

/-- The value that a text's document denotes. -/
def readDocument {α : Type} (f : Json → Option α) (text : String) : Except Error α :=
  match (Json.parse? text).bind f with
  | some a => .ok a
  | none => .error (.parse .malformed)

/-- The valid plan that a text is. -/
def Plan.ofText (text : String) : Except Error Plan := do
  let plan ← readDocument Plan.ofJson? text
  let _ ← plan.validate
  return plan

/-- The plan's source that a text is. -/
def PlanSource.ofText (text : String) : Except Error PlanSource :=
  readDocument PlanSource.ofJson? text

end ChunkedFile
