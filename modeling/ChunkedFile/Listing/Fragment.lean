import ChunkedFile.Error
import ChunkedFile.Listing.Entry
import ChunkedFile.Text.Trim

/-!
# Fragments

A stored file named `base.marker.ordinal` is a fragment of the file `base`. The ordinal is what
follows the last point, so a name is cut in only one way. Fragments are kept in the order of their
bases and ordinals; equal ones stay as they were listed.
-/

namespace ChunkedFile

/-- The marker by which fragments are recognised. -/
structure FragmentPattern where
  marker : String
  marker_ne : marker ≠ ""
  deriving DecidableEq, Repr

namespace FragmentPattern

/-- The marker of a new configuration. -/
def standardMarker : String := "rclone_chunk"

/-- The pattern of a marker. -/
def ofMarker (marker : String) : Except Error FragmentPattern :=
  if h : marker = "" then .error (.config .emptyMarker) else .ok ⟨marker, h⟩

/-- The pattern of the marker of a new configuration. -/
def standard : FragmentPattern := ⟨standardMarker, by decide⟩

/-- The number that digits denote where it is an ordinal. -/
def ordinal? (digits : List Char) : Option Nat :=
  match Text.readDigits 10 partLimit .tooLarge 0 digits with
  | .ok n => if digits.isEmpty then none else some n
  | .error _ => none

/-- The base and the digits of a name, whatever the digits may be. -/
def cut? (pattern : FragmentPattern) (name : List Char) : Option (List Char × List Char) :=
  let backwards := name.reverse
  match backwards.dropWhile (· != '.') with
  | [] => none
  | _ :: stem =>
    (Text.afterStart? (pattern.marker.toList.reverse ++ ['.']) stem).map fun base =>
      (base.reverse, (backwards.takeWhile (· != '.')).reverse)

/-- The base and the ordinal of a fragment's name. A base is not empty and holds no line feed. -/
def parse (pattern : FragmentPattern) (name : String) : Option (String × Nat) :=
  match pattern.cut? name.toList with
  | none => none
  | some (base, digits) =>
    if base.isEmpty ∨ '\n' ∈ base then none
    else (ordinal? digits).map fun n => (String.ofList base, n)

/-- The name of a fragment. -/
def fragmentName (pattern : FragmentPattern) (base : String) (ordinal : Nat) : String :=
  base ++ "." ++ pattern.marker ++ "." ++ Text.padded 3 ordinal

end FragmentPattern

/-- A stored file with the base and the ordinal of its name. -/
structure Fragment where
  base : String
  ordinal : Nat
  entry : StoredEntry
  deriving DecidableEq, Repr

namespace Fragment

/-- The fragment that an entry is. -/
def ofEntry? (pattern : FragmentPattern) (e : StoredEntry) : Option Fragment :=
  if e.isDir then none
  else (pattern.parse e.name).map fun (base, ordinal) => ⟨base, ordinal, e⟩

/-- The order of fragments: by base, then by ordinal. -/
def before (a b : Fragment) : Bool := a.base < b.base || (a.base == b.base && a.ordinal ≤ b.ordinal)

end Fragment

/-- The fragments of a listing in their order. -/
def fragments (pattern : FragmentPattern) (entries : List StoredEntry) : List Fragment :=
  (entries.filterMap (Fragment.ofEntry? pattern)).mergeSort Fragment.before

/-- The entries that are fragments of the file with this name, in their order. -/
def fragmentsOf (pattern : FragmentPattern) (entries : List StoredEntry) (name : String) :
    List StoredEntry :=
  ((fragments pattern entries).filter (·.base == name)).map Fragment.entry

end ChunkedFile
