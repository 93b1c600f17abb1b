import ChunkedFile.Listing.Fragment
import ChunkedFile.Plan

/-!
# Listings as they are shown

`aggregate` shows a directory: the fragments of each file as one entry, whose size is the sum of
theirs, and all other entries as they are. `chunkPlan` finds the chunks of one file in a directory.
Both refuse a name that stands for a group of fragments and for another entry.
-/

namespace ChunkedFile

/-- Whether an entry is shown as it is. -/
def StoredEntry.isLiteral (pattern : FragmentPattern) (e : StoredEntry) : Bool :=
  e.isDir || (pattern.parse e.name).isNone

/-- The order of names. -/
def LogicalEntry.before (a b : LogicalEntry) : Bool := a.name ≤ b.name

/-- Of neighbours with one name only the last. -/
def lastOfEachName : List LogicalEntry → List LogicalEntry
  | [] => []
  | [e] => [e]
  | e :: f :: rest =>
    if e.name = f.name then lastOfEachName (f :: rest) else e :: lastOfEachName (f :: rest)

/-- The entries shown as they are, by name; of several with one name the last listed. -/
def literals (pattern : FragmentPattern) (entries : List StoredEntry) : List LogicalEntry :=
  lastOfEachName <|
    ((entries.filter (StoredEntry.isLiteral pattern)).map LogicalEntry.ofStored).mergeSort
      LogicalEntry.before

/-- The file of which a single fragment is known. -/
def LogicalEntry.ofFragment (f : Fragment) : LogicalEntry where
  name := f.base
  size := f.entry.size
  modified := f.entry.modified
  created := f.entry.created
  isFolder := false

/-- Two parts of one file taken together. -/
def LogicalEntry.merge (a b : LogicalEntry) : LogicalEntry where
  name := a.name
  size := a.size + b.size
  modified := a.modified.latest b.modified
  created := a.created.earliest b.created
  isFolder := false

/-- One entry for each run of fragments with one base. -/
def mergeFragments : List Fragment → List LogicalEntry
  | [] => []
  | f :: rest =>
    match mergeFragments rest with
    | e :: merged =>
      if e.name = f.base then (LogicalEntry.ofFragment f).merge e :: merged
      else .ofFragment f :: e :: merged
    | [] => [.ofFragment f]

/-- The entries of a directory as they are shown, by name. -/
def aggregate (pattern : FragmentPattern) (entries : List StoredEntry) :
    Except Error (List LogicalEntry) :=
  let literals := literals pattern entries
  let fragments := fragments pattern entries
  match fragments.find? fun f => literals.any (·.name == f.base) with
  | some f => .error (.collision f.base)
  | none => .ok ((literals ++ mergeFragments fragments).mergeSort LogicalEntry.before)

/-- The address of an entry of a directory. -/
def joinAddress (directory name : String) : String :=
  Text.trimTrailingSlashes directory ++ "/" ++ name

/-- The chunk that a stored file is. -/
def StoredEntry.toChunk (directory : String) (e : StoredEntry) : ChunkRef :=
  ⟨joinAddress directory e.name, e.size⟩

/-- The plan of the file with this name: its fragments, or the stored file itself. -/
def chunkPlan (pattern : FragmentPattern) (entries : List StoredEntry) (directory name : String) :
    Except Error (Option Plan) :=
  let found := fragmentsOf pattern entries name
  match found.isEmpty, entries.find? fun e => !e.isDir && e.name == name with
  | false, some _ => .error (.collision name)
  | false, none => .ok (some { chunks := found.map (StoredEntry.toChunk directory) })
  | true, some e => .ok (some { chunks := [e.toChunk directory] })
  | true, none => .ok none

end ChunkedFile
