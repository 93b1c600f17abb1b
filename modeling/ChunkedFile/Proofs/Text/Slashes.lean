import ChunkedFile.Proofs.Text.Parts

/-!
# Slashes around a path

Paths are joined after the slashes at their ends are dropped. What is dropped is said here by what a
path consists of: a stem with slashes behind it, and a rest with slashes before it. Both are the
only ones that do not go on with a slash, and they stay what they are when paths are joined on the
other side.
-/

namespace ChunkedFile.Text

variable {path stem rest : String}

/-- So many slashes. -/
def slashes (count : Nat) : String := String.ofList (List.replicate count '/')

/-- The path is the stem with slashes behind it, and the stem does not end in one. -/
structure Stems (path stem : String) : Prop where
  path_eq : ∃ count, path = stem ++ slashes count
  last : stem.toList.getLast? ≠ some '/'

/-- The path is the rest with slashes before it, and the rest does not begin with one. -/
structure Roots (path rest : String) : Prop where
  path_eq : ∃ count, path = slashes count ++ rest
  first : rest.toList.head? ≠ some '/'

@[simp] theorem toList_slashes (count : Nat) :
    (slashes count).toList = List.replicate count '/' := String.toList_ofList

private theorem eq_replicate_of_slash {cs : List Char} (h : ∀ c ∈ cs, (c == '/') = true) :
    cs = List.replicate cs.length '/' :=
  List.eq_replicate_iff.mpr ⟨rfl, fun c hc => beq_iff_eq.mp (h c hc)⟩

private theorem slash_of_mem_replicate {count : Nat} :
    ∀ c ∈ List.replicate count '/', (c == '/') = true :=
  fun _ hc => beq_iff_eq.mpr (List.eq_of_mem_replicate hc)

private theorem dropWhile_eq_self_of_head? {cs : List Char} (h : cs.head? ≠ some '/') :
    cs.dropWhile (· == '/') = cs := by
  cases cs with
  | nil => rfl
  | cons c cs => exact List.dropWhile_cons_of_neg (by simpa using h)

/-- Of the slashes at the end of a path none is left. -/
theorem stems_trimTrailingSlashes (path : String) : Stems path (trimTrailingSlashes path) := by
  rw [trimTrailingSlashes, dropTrailing_eq_rdropWhile]
  constructor
  · have hdropped := eq_replicate_of_slash fun c hc =>
      List.mem_rtakeWhile_imp (p := (· == '/')) (l := path.toList) hc
    refine ⟨(path.toList.rtakeWhile (· == '/')).length, ?_⟩
    rw [slashes, ← hdropped, ← String.ofList_append, List.rdropWhile_append_rtakeWhile,
      String.ofList_toList]
  · rw [String.toList_ofList]
    intro hlast
    obtain ⟨hne, heq⟩ := List.mem_getLast?_eq_getLast hlast
    have hnot := List.rdropWhile_last_not _ _ hne
    rw [← heq] at hnot
    exact hnot rfl

/-- Of the slashes at the start of a path none is left. -/
theorem roots_trimLeadingSlashes (path : String) : Roots path (trimLeadingSlashes path) := by
  constructor
  · have hdropped := eq_replicate_of_slash fun c hc =>
      List.mem_takeWhile_imp (p := (· == '/')) (l := path.toList) hc
    refine ⟨(path.toList.takeWhile (· == '/')).length, ?_⟩
    rw [slashes, ← hdropped, trimLeadingSlashes, ← String.ofList_append,
      List.takeWhile_append_dropWhile, String.ofList_toList]
  · rw [trimLeadingSlashes, String.toList_ofList]
    intro hfirst
    have hnot := List.head?_dropWhile_not (· == '/') path.toList
    rw [hfirst] at hnot
    cases hnot

/-- A path has one stem only. -/
theorem Stems.trimTrailingSlashes_eq (h : Stems path stem) : trimTrailingSlashes path = stem := by
  obtain ⟨⟨count, rfl⟩, hlast⟩ := h
  rw [← List.head?_reverse] at hlast
  rw [trimTrailingSlashes, String.toList_append, toList_slashes,
    dropTrailing_append slash_of_mem_replicate, dropTrailing, dropWhile_eq_self_of_head? hlast,
    List.reverse_reverse, String.ofList_toList]

/-- A path has one rest only. -/
theorem Roots.trimLeadingSlashes_eq (h : Roots path rest) : trimLeadingSlashes path = rest := by
  obtain ⟨⟨count, rfl⟩, hfirst⟩ := h
  rw [trimLeadingSlashes, String.toList_append, toList_slashes,
    List.dropWhile_append_of_pos slash_of_mem_replicate, dropWhile_eq_self_of_head? hfirst,
    String.ofList_toList]

/-- Slashes only have the empty stem. -/
theorem stems_slashes (count : Nat) : Stems (slashes count) "" :=
  ⟨⟨count, String.empty_append.symm⟩, by simp⟩

/-- Slashes only have the empty rest. -/
theorem roots_slashes (count : Nat) : Roots (slashes count) "" :=
  ⟨⟨count, String.append_empty.symm⟩, by simp⟩

/-- What a path begins with, its stem begins with, unless the path is slashes only. -/
theorem Stems.head?_eq (h : Stems path stem) (hne : stem ≠ "") :
    stem.toList.head? = path.toList.head? := by
  obtain ⟨⟨count, rfl⟩, -⟩ := h
  rw [String.toList_append, List.head?_append_of_ne_nil _ (by simpa using hne)]

/-- What stands before a path stands before its stem. -/
theorem Stems.append (h : Stems path stem) (hne : stem ≠ "") (before : String) :
    Stems (before ++ path) (before ++ stem) := by
  obtain ⟨⟨count, rfl⟩, hlast⟩ := h
  refine ⟨⟨count, String.append_assoc.symm⟩, ?_⟩
  rw [String.toList_append, List.getLast?_append_of_ne_nil _ (by simpa using hne)]
  exact hlast

/-- What stands behind a path stands behind its rest. -/
theorem Roots.append (h : Roots path rest) (hne : rest ≠ "") (after : String) :
    Roots (path ++ after) (rest ++ after) := by
  obtain ⟨⟨count, rfl⟩, hfirst⟩ := h
  refine ⟨⟨count, String.append_assoc⟩, ?_⟩
  rw [String.toList_append, List.head?_append_of_ne_nil _ (by simpa using hne)]
  exact hfirst

/-- Of a stem that is not empty something is left without the slashes at its start, and it ends as
the stem does. -/
theorem Stems.rest_ne_empty (h : Stems path stem) (hne : stem ≠ "") (hrest : Roots stem rest) :
    rest ≠ "" ∧ rest.toList.getLast? ≠ some '/' := by
  obtain ⟨⟨count, rfl⟩, -⟩ := hrest
  have hlast := h.last
  rw [String.toList_append, toList_slashes] at hlast
  have hsome : rest ≠ "" := by
    rintro rfl
    cases count with
    | zero => exact hne rfl
    | succ count => simp [List.getLast?_replicate] at hlast
  refine ⟨hsome, ?_⟩
  rwa [List.getLast?_append_of_ne_nil _ (by simpa using hsome)] at hlast

end ChunkedFile.Text
