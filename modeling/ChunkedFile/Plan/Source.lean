import ChunkedFile.Listing.Entry
import ChunkedFile.Plan

/-!
# Sources of plans

What a user records about a file, from which a plan is resolved: the chunks themselves, the paths
of parts of a fixed size, or the listing of the directory that holds its fragments.
-/

namespace ChunkedFile

/-- How the chunks of a file are described. -/
inductive Layout where
  | chunks (refs : List ChunkRef)
  /-- Parts of the configured size, the last one perhaps smaller, of a file of this size. -/
  | uniform (parts : List String) (size : UInt64)
  | listing (directory name : String) (entries : List StoredEntry)
  deriving DecidableEq, Repr

/-- What is recorded about a file. -/
structure PlanSource where
  layout : Layout
  digest : Option String := none
  /-- The algorithm of the digest where it is not the configured one. -/
  algorithm : Option Algorithm := none
  proxied : Bool := false
  deriving DecidableEq, Repr

end ChunkedFile
