import ChunkedFile.Error

/-!
# Release sets

What has to be released once a response is finished. A release takes everything that is registered
at that moment out of the set, so nothing is released twice, and goes on after a failure.
-/

namespace ChunkedFile

/-- Resources that wait to be released. -/
structure ReleaseSet (α : Type) where
  /-- The resources in the order in which they were added. -/
  pending : List α := []
  deriving DecidableEq, Repr

namespace ReleaseSet

variable {α : Type}

/-- Registers a resource. -/
def add (set : ReleaseSet α) (resource : α) : ReleaseSet α := ⟨set.pending ++ [resource]⟩

/-- The number of resources that wait. -/
def size (set : ReleaseSet α) : Nat := set.pending.length

/-- Whether no resource waits. -/
def isEmpty (set : ReleaseSet α) : Bool := set.pending.isEmpty

/-- All that waits, and the set without it. -/
def takeAll (set : ReleaseSet α) : List α × ReleaseSet α := (set.pending, ⟨[]⟩)

/-- Releases each of some resources, failures notwithstanding, and tells the first failure. -/
def releaseEach {m : Type → Type} [Monad m] (free : α → m (Except Error Unit)) :
    List α → m (Except Error Unit)
  | [] => return .ok ()
  | resource :: rest => do
    let first ← free resource
    let others ← releaseEach free rest
    return match first with
      | .error e => .error e
      | .ok () => others

/-- Releases all that is in the set at the beginning; resources may add to the set meanwhile. -/
def release {m : Type → Type} [Monad m]
    (free : α → StateT (ReleaseSet α) m (Except Error Unit)) :
    StateT (ReleaseSet α) m (Except Error Unit) := do
  let resources ← modifyGet takeAll
  releaseEach free resources

/-- The diagnostic form of a release set. -/
def inspect (set : ReleaseSet α) : String := s!"ReleaseSet \x7b pending: {set.size} \x7d"

end ReleaseSet

end ChunkedFile
