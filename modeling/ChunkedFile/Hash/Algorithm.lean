import ChunkedFile.Text.Trim

/-!
# Digest algorithms

The algorithms that a recorded digest may name.
-/

namespace ChunkedFile

/-- An algorithm for the digest of a whole file. -/
inductive Algorithm where
  | md5
  | sha1
  | sha256
  deriving DecidableEq, Repr

namespace Algorithm

/-- The name under which an algorithm is recorded and shown. -/
def name : Algorithm → String
  | .md5 => "md5"
  | .sha1 => "sha1"
  | .sha256 => "sha256"

/-- The constructor-like name that diagnostic texts show. -/
def label : Algorithm → String
  | .md5 => "Md5"
  | .sha1 => "Sha1"
  | .sha256 => "Sha256"

/-- The number of hexadecimal digits of a digest. -/
def hexLength : Algorithm → Nat
  | .md5 => 32
  | .sha1 => 40
  | .sha256 => 64

/-- The algorithm recorded under exactly this name. -/
def ofName? : String → Option Algorithm
  | "md5" => some .md5
  | "sha1" => some .sha1
  | "sha256" => some .sha256
  | _ => none

/-- An algorithm is found by its name. -/
theorem ofName?_name (a : Algorithm) : ofName? a.name = some a := by
  cases a <;> rfl

end Algorithm

end ChunkedFile
