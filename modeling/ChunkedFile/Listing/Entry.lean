import ChunkedFile.Time.Instant

/-!
# Entries of a listing

What the backing store lists, and what is shown of it: the files that were cut into fragments as
one entry each, all else as it is.
-/

namespace ChunkedFile

/-- An entry as the backing store lists it. -/
structure StoredEntry where
  name : String
  size : UInt64
  modified : Instant
  created : Instant
  isDir : Bool
  deriving DecidableEq, Repr

namespace StoredEntry

/-- A file whose times are all the same. -/
def file (name : String) (size : UInt64) (time : Instant) : StoredEntry :=
  ⟨name, size, time, time, false⟩

/-- A directory whose times are all the same. -/
def dir (name : String) (time : Instant) : StoredEntry := ⟨name, 0, time, time, true⟩

end StoredEntry

/-- An entry as it is shown. -/
structure LogicalEntry where
  name : String
  size : UInt64
  modified : Instant
  created : Instant
  isFolder : Bool
  deriving DecidableEq, Repr

/-- An entry shown as it is stored; directories have no size of their own. -/
def LogicalEntry.ofStored (e : StoredEntry) : LogicalEntry where
  name := e.name
  size := if e.isDir then 0 else e.size
  modified := e.modified
  created := e.created
  isFolder := e.isDir

end ChunkedFile
