import Mathlib.Data.Fintype.Card
import Mathlib.Data.List.Nodup
import ChunkedFile.Proofs.Listing.Resolution

/-!
# Directories and files with one name

Some stores list a directory and a file with one name. Only the one listed last is shown then. A
directory may also have the name of a file that was cut into fragments: showing the listing refuses
that name, while finding a plan looks at files only and finds the fragments.
-/

namespace ChunkedFile

variable {pattern : FragmentPattern} {entries : List StoredEntry} {e : StoredEntry}
  {all : List LogicalEntry} {name base : String}

/-- No two directories of a listing and no two of its files have one name. -/
def DistinctInKind (entries : List StoredEntry) : Prop :=
  (entries.map fun e => (e.isDir, e.name)).Nodup

instance : Decidable (DistinctInKind entries) := inferInstanceAs (Decidable (List.Nodup _))

/-- Some directory has the name of a file that is no fragment. -/
def SharesName (pattern : FragmentPattern) (entries : List StoredEntry) : Prop :=
  ∃ d ∈ entries, ∃ f ∈ entries, d.isDir = true ∧ f.isDir = false ∧
    pattern.parse f.name = none ∧ d.name = f.name

/-- Every directory is shown as a folder and every file that is no fragment as a file. -/
structure Keeps (pattern : FragmentPattern) (entries : List StoredEntry)
    (all : List LogicalEntry) : Prop where
  folder : ∀ e ∈ entries, e.isDir = true → ⟨e.name, 0, e.modified, e.created, true⟩ ∈ all
  file : ∀ e ∈ entries, e.isDir = false → pattern.parse e.name = none →
    ⟨e.name, e.size, e.modified, e.created, false⟩ ∈ all

/-- A directory is shown as a folder without a size. -/
theorem LogicalEntry.ofStored_of_isDir (h : e.isDir = true) :
    ofStored e = ⟨e.name, 0, e.modified, e.created, true⟩ := by
  simp [ofStored, h]

/-- A file is shown with its size. -/
theorem LogicalEntry.ofStored_of_file (h : e.isDir = false) :
    ofStored e = ⟨e.name, e.size, e.modified, e.created, false⟩ := by
  simp [ofStored, h]

/-- Entries are kept where all that are shown as they are are shown. -/
theorem keeps_iff : Keeps pattern entries all ↔
    ∀ e ∈ entries, e.isLiteral pattern = true → .ofStored e ∈ all := by
  constructor
  · intro h e he hliteral
    cases hdir : e.isDir with
    | true => exact LogicalEntry.ofStored_of_isDir hdir ▸ h.folder e he hdir
    | false =>
      have hname : pattern.parse e.name = none := by
        simpa [hdir] using StoredEntry.isLiteral_iff.mp hliteral
      exact LogicalEntry.ofStored_of_file hdir ▸ h.file e he hdir hname
  · intro h
    constructor
    · intro e he hdir
      rw [← LogicalEntry.ofStored_of_isDir hdir]
      exact h e he (StoredEntry.isLiteral_iff.mpr (Or.inl hdir))
    · intro e he hdir hname
      rw [← LogicalEntry.ofStored_of_file hdir]
      exact h e he (StoredEntry.isLiteral_iff.mpr (Or.inr hname))

/-- Entries of one name differ in kind. -/
theorem DistinctInKind.nodup_kinds (h : DistinctInKind entries)
    (pattern : FragmentPattern) (name : String) :
    ((literalsNamed pattern entries name).map StoredEntry.isDir).Nodup := by
  have hsub := (List.filter_sublist (l := entries)
    (p := fun e => e.name == name && e.isLiteral pattern)).map fun e => (e.isDir, e.name)
  have hnodup : ((literalsNamed pattern entries name).map fun e => (e.isDir, e.name)).Nodup :=
    h.sublist hsub
  have hpairs : ((literalsNamed pattern entries name).map fun e => (e.isDir, e.name)) =
      ((literalsNamed pattern entries name).map StoredEntry.isDir).map fun kind =>
        (kind, name) := by
    rw [List.map_map]
    refine List.map_congr_left fun e he => ?_
    rw [Function.comp_apply, (mem_literalsNamed_iff.mp he).2.1]
  rw [hpairs] at hnodup
  exact hnodup.of_map

/-- Of two entries of one name the one listed last is shown, and nothing else. -/
theorem DistinctInKind.filter_shown_of_pair {first last : StoredEntry}
    (h : DistinctInKind entries) (hall : aggregate pattern entries = .ok all)
    (hpair : [first, last].Sublist entries) (hfirst : first.isLiteral pattern = true)
    (hlast : last.isLiteral pattern = true) (hname : first.name = last.name) :
    all.filter (·.name == last.name) = [.ofStored last] := by
  have hkinds := h.nodup_kinds pattern last.name
  have hsub : [first, last].Sublist (literalsNamed pattern entries last.name) := by
    have hfiltered := hpair.filter fun e => e.name == last.name && e.isLiteral pattern
    simp only [List.filter_cons, List.filter_nil, hname, hfirst, hlast, BEq.rfl, Bool.and_self,
      if_true] at hfiltered
    exact hfiltered
  -- there are two kinds of entries
  have hlength : (literalsNamed pattern entries last.name).length ≤ 2 := by
    rw [← List.length_map StoredEntry.isDir, ← Fintype.card_bool]
    exact hkinds.length_le_card
  rw [filter_shown_of_literal hall (hsub.subset List.mem_cons_self),
    ← hsub.eq_of_length_le hlength]
  rfl

/-- Where kinds tell entries of one name apart and none has both, there is but one. -/
theorem DistinctInKind.eq_of_name {f : StoredEntry} (h : DistinctInKind entries)
    (hfree : ¬ SharesName pattern entries) (he : e ∈ literalsNamed pattern entries name)
    (hf : f ∈ literalsNamed pattern entries name) : e = f := by
  obtain ⟨hentry, rfl, hkept⟩ := mem_literalsNamed_iff.mp he
  obtain ⟨hother, hname, hkept'⟩ := mem_literalsNamed_iff.mp hf
  rw [StoredEntry.isLiteral_iff] at hkept hkept'
  apply List.inj_on_of_nodup_map h hentry hother
  rw [Prod.mk.injEq]
  refine ⟨?_, hname.symm⟩
  cases hdir : e.isDir <;> cases hdir' : f.isDir
  · rfl
  · have hparse : pattern.parse e.name = none := by simpa [hdir] using hkept
    exact absurd ⟨f, hother, e, hentry, hdir', hdir, hparse, hname⟩ hfree
  · have hparse : pattern.parse f.name = none := by simpa [hdir'] using hkept'
    exact absurd ⟨e, hentry, f, hother, hdir, hdir', hparse, hname.symm⟩ hfree
  · rfl

/-- All entries but fragments are shown as they are exactly where no directory has the name of a
file that is no fragment; of two such entries only the one listed last is shown. -/
theorem keeps_iff_not_sharesName (h : DistinctInKind entries)
    (hall : aggregate pattern entries = .ok all) :
    (Keeps pattern entries all ↔ ¬ SharesName pattern entries) ∧
      ∀ first last, [first, last].Sublist entries → first.isLiteral pattern = true →
        last.isLiteral pattern = true → first.name = last.name →
          all.filter (·.name == last.name) = [.ofStored last] := by
  refine ⟨⟨?_, ?_⟩, fun first last => h.filter_shown_of_pair hall⟩
  · rintro hkeeps ⟨d, hd, f, hf, hdir, hfile, hparse, hname⟩
    have hfolder := hkeeps.folder d hd hdir
    have hplain := hkeeps.file f hf hfile hparse
    -- no name is shown twice
    have heq := List.inj_on_of_nodup_map (shown_nodup hall) hfolder hplain hname
    cases congrArg LogicalEntry.isFolder heq
  · intro hfree
    rw [keeps_iff]
    intro e he hliteral
    have hmem := mem_literalsNamed_iff.mpr ⟨he, rfl, hliteral⟩
    have hne := List.ne_nil_of_mem hmem
    have hlast := h.eq_of_name hfree (List.getLast_mem hne) hmem
    have hfilter := filter_shown_of_literal hall hmem
    rw [List.getLast?_eq_some_getLast hne, hlast, Option.map_some, Option.toList_some] at hfilter
    have hshown : LogicalEntry.ofStored e ∈ all.filter (·.name == e.name) :=
      hfilter ▸ List.mem_singleton_self _
    exact (List.mem_filter.mp hshown).1

/-- Entries of both kinds and a fragment, with a name each. -/
def plainListing : List StoredEntry :=
  [.dir "b" noon, .file "a.rclone_chunk.1" 5 noon, .file "c" 7 noon]

/-- No name is shared, and all entries are kept. -/
theorem keeps_plainListing : DistinctInKind plainListing ∧
    ¬ SharesName .standard plainListing ∧
      Keeps .standard plainListing [⟨"a", 5, noon, noon, false⟩, ⟨"b", 0, noon, noon, true⟩,
        ⟨"c", 7, noon, noon, false⟩] := by
  have hkinds : DistinctInKind plainListing := by decide
  have hresult : aggregate .standard plainListing = .ok [⟨"a", 5, noon, noon, false⟩,
      ⟨"b", 0, noon, noon, true⟩, ⟨"c", 7, noon, noon, false⟩] := by
    simp only [aggregate, literals, fragments_eq_insertionSort,
      LogicalEntry.mergeSort_eq_insertionSort]
    decide +kernel
  obtain ⟨hiff, -⟩ := keeps_iff_not_sharesName hkinds hresult
  have hfree : ¬ SharesName .standard plainListing := by
    rintro ⟨d, hd, f, hf, hdir, hfile, -, hname⟩
    revert hname
    revert d f
    decide
  exact ⟨hkinds, hfree, hiff.mpr hfree⟩

/-- A directory and a file with one name. -/
def sharedListing : List StoredEntry := [.dir "x" noon, .file "x" 5 noon]

/-- The directory is not shown. -/
theorem not_keeps_sharedListing : DistinctInKind sharedListing ∧
    ∃ all, aggregate .standard sharedListing = .ok all ∧
      ¬ Keeps .standard sharedListing all := by
  have hresult : aggregate .standard sharedListing = .ok [⟨"x", 5, noon, noon, false⟩] := by
    simp only [aggregate, literals, fragments_eq_insertionSort,
      LogicalEntry.mergeSort_eq_insertionSort]
    decide +kernel
  refine ⟨by decide, _, hresult, fun hkeeps => ?_⟩
  have hfolder := hkeeps.folder (.dir "x" noon) List.mem_cons_self rfl
  simp [StoredEntry.dir] at hfolder

/-- A name that showing a listing refuses is refused for a plan too exactly where no directory has
it; where one has it, the plan of the fragments is found. -/
theorem refused_iff_not_directory (hnames : Distinct entries)
    (hrefused : aggregate pattern entries = .error (.collision base)) (directory : String) :
    (chunkPlan pattern entries directory base = .error (.collision base) ↔
      ∀ e ∈ entries, e.name = base → e.isDir = false) ∧
    ((∃ e ∈ entries, e.name = base ∧ e.isDir = true) →
      fragmentsOf pattern entries base ≠ [] ∧
        chunkPlan pattern entries directory base = .ok (some {
          chunks := (fragmentsOf pattern entries base).map (StoredEntry.toChunk directory) })) := by
  obtain ⟨⟨f, hf, ordinal, hfragment⟩, e, he, hname, -⟩ :=
    (aggregate_eq_error_iff.mp hrefused).1
  have hserved : (∃ e ∈ entries, e.name = base ∧ e.isDir = true) →
      fragmentsOf pattern entries base ≠ [] ∧
        chunkPlan pattern entries directory base = .ok (some {
          chunks := (fragmentsOf pattern entries base).map (StoredEntry.toChunk directory) }) := by
    rintro ⟨d, hd, hdname, hdir⟩
    have hsome : fragmentsOf pattern entries base ≠ [] :=
      List.ne_nil_of_mem (mem_fragmentsOf_iff.mpr ⟨hf, ordinal, hfragment⟩)
    refine ⟨hsome, chunkPlan_of_fragments hsome ?_⟩
    rw [storedFile?_eq_none_iff]
    intro other hother hfile hsame
    have heq := List.inj_on_of_nodup_map hnames hother hd (hsame.trans hdname.symm)
    rw [heq, hdir] at hfile
    cases hfile
  refine ⟨⟨?_, ?_⟩, hserved⟩
  · intro h d hd hdname
    rw [← Bool.not_eq_true]
    intro hdir
    rw [(hserved ⟨d, hd, hdname, hdir⟩).2] at h
    cases h
  · intro hfiles
    exact chunkPlan_of_contested ⟨⟨f, hf, ordinal, hfragment⟩, e, he, hfiles e he hname, hname⟩

/-- A file, and a fragment of a file of its name. -/
def contestedListing : List StoredEntry := [.file "a" 4 noon, .file "a.rclone_chunk.1" 3 noon]

/-- No directory has the name, so both refuse it. -/
theorem refused_contestedListing : Distinct contestedListing ∧
    aggregate .standard contestedListing = .error (.collision "a") ∧
      chunkPlan .standard contestedListing "/d" "a" = .error (.collision "a") := by
  have hnames : Distinct contestedListing := by decide
  have hrefused : aggregate .standard contestedListing = .error (.collision "a") := by
    simp only [aggregate, literals, fragments_eq_insertionSort,
      LogicalEntry.mergeSort_eq_insertionSort]
    decide +kernel
  obtain ⟨hiff, -⟩ := refused_iff_not_directory hnames hrefused "/d"
  exact ⟨hnames, hrefused, hiff.mpr (by decide)⟩

/-- A directory, and a fragment of a file of its name. -/
def coveredListing : List StoredEntry := [.dir "a" noon, .file "a.rclone_chunk.1" 3 noon]

/-- The listing is refused for the name, and a plan is found for it. -/
theorem served_coveredListing : Distinct coveredListing ∧
    aggregate .standard coveredListing = .error (.collision "a") ∧
      chunkPlan .standard coveredListing "/d" "a" ≠ .error (.collision "a") := by
  have hplan : chunkPlan .standard coveredListing "/d" "a" =
      .ok (some { chunks := [⟨"/d/a.rclone_chunk.1", 3⟩] }) := by
    simp only [chunkPlan, fragmentsOf, fragments_eq_insertionSort]
    decide +kernel
  have hrefused : aggregate .standard coveredListing = .error (.collision "a") := by
    simp only [aggregate, literals, fragments_eq_insertionSort,
      LogicalEntry.mergeSort_eq_insertionSort]
    decide +kernel
  refine ⟨by decide, hrefused, ?_⟩
  rw [hplan]
  simp

end ChunkedFile
