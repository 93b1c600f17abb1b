import ChunkedFile.Proofs.Listing.Display

/-!
# From a shown entry to a plan

What a directory shows of a file and the plan that is found for the file's name agree, but for one
kind of name: that of a stored file which is itself a fragment and has fragments of its own. Showing
a directory takes such a file for a fragment only, finding a plan also for the file of its name.
-/

namespace ChunkedFile

variable {pattern : FragmentPattern} {entries : List StoredEntry} {e : StoredEntry}
  {directory name : String}

/-- No two entries of a listing have one name. -/
def Distinct (entries : List StoredEntry) : Prop := (entries.map StoredEntry.name).Nodup

instance : Decidable (Distinct entries) := inferInstanceAs (Decidable (List.Nodup _))

/-- The stored file with this name. -/
def storedFile? (entries : List StoredEntry) (name : String) : Option StoredEntry :=
  entries.find? fun e => !e.isDir && e.name == name

/-- The stored file of a name is a file of the listing with that name. -/
theorem of_storedFile? (h : storedFile? entries name = some e) :
    e ∈ entries ∧ e.isDir = false ∧ e.name = name := by
  have hfile := List.find?_some h
  simp only [Bool.and_eq_true, Bool.not_eq_true', beq_iff_eq] at hfile
  exact ⟨List.mem_of_find?_eq_some h, hfile⟩

/-- There is none where only directories have the name. -/
theorem storedFile?_eq_none_iff :
    storedFile? entries name = none ↔ ∀ e ∈ entries, e.isDir = false → e.name ≠ name := by
  simp [storedFile?]

/-- Where names are distinct, every stored file is found by its name. -/
theorem Distinct.storedFile?_name (h : Distinct entries) (hmem : e ∈ entries)
    (hfile : e.isDir = false) : storedFile? entries e.name = some e := by
  induction entries with
  | nil => cases hmem
  | cons first rest ih =>
    obtain ⟨hfirst, hrest⟩ := List.nodup_cons.mp h
    rcases List.mem_cons.mp hmem with rfl | hmem
    · simp [storedFile?, hfile]
    · have hne : first.name ≠ e.name := by
        intro heq
        exact hfirst (heq ▸ List.mem_map_of_mem hmem)
      rw [storedFile?, List.find?_cons_of_neg (by simp [hne])]
      exact ih hrest hmem

/-- There are fragments of the file, and a stored file of its name besides. -/
def Contested (pattern : FragmentPattern) (entries : List StoredEntry) (name : String) : Prop :=
  (∃ e ∈ entries, ∃ ordinal, e.IsFragment pattern name ordinal) ∧
    ∃ e ∈ entries, e.isDir = false ∧ e.name = name

/-- What is found for a name, by the fragments and the stored file that there are. -/
theorem chunkPlan_eq (pattern : FragmentPattern) (entries : List StoredEntry)
    (directory name : String) :
    chunkPlan pattern entries directory name =
      match (fragmentsOf pattern entries name).isEmpty, storedFile? entries name with
      | false, some _ => .error (.collision name)
      | false, none => .ok (some {
          chunks := (fragmentsOf pattern entries name).map (StoredEntry.toChunk directory) })
      | true, some e => .ok (some { chunks := [e.toChunk directory] })
      | true, none => .ok none := rfl

/-- A contested name has no plan. -/
theorem chunkPlan_of_contested (h : Contested pattern entries name) :
    chunkPlan pattern entries directory name = .error (.collision name) := by
  obtain ⟨⟨f, hf, ordinal, hfragment⟩, e, he, hfile, hname⟩ := h
  have hsome : (fragmentsOf pattern entries name).isEmpty = false := by
    rw [List.isEmpty_eq_false_iff]
    exact List.ne_nil_of_mem (mem_fragmentsOf_iff.mpr ⟨hf, ordinal, hfragment⟩)
  rw [chunkPlan_eq, hsome]
  cases hstored : storedFile? entries name with
  | none => exact absurd hname (storedFile?_eq_none_iff.mp hstored e he hfile)
  | some => rfl

/-- Where only fragments are found, they are the chunks. -/
theorem chunkPlan_of_fragments (hsome : fragmentsOf pattern entries name ≠ [])
    (hnone : storedFile? entries name = none) :
    chunkPlan pattern entries directory name = .ok (some {
      chunks := (fragmentsOf pattern entries name).map (StoredEntry.toChunk directory) }) := by
  rw [chunkPlan_eq, List.isEmpty_eq_false_iff.mpr hsome, hnone]

/-- Where only a stored file is found, it is the one chunk. -/
theorem chunkPlan_of_file (hnone : fragmentsOf pattern entries name = [])
    (hstored : storedFile? entries name = some e) :
    chunkPlan pattern entries directory name = .ok (some { chunks := [e.toChunk directory] }) := by
  rw [chunkPlan_eq, hnone, hstored]
  rfl

/-- The chunks of stored files have the sum of their sizes. -/
theorem totalSize_toChunk (directory : String) (found : List StoredEntry) :
    ({ chunks := found.map (StoredEntry.toChunk directory) } : Plan).totalSize =
      min (found.map fun e => e.size.toNat).sum Size.limit := by
  rw [Plan.totalSize, Size.total_eq_min, Plan.sizes]
  simp only [List.map_map]
  rfl

/-- The plan that is found for the name of a shown file has the size that is shown, but where the
name is contested; then none is found. -/
theorem shown_resolves_iff {all : List LogicalEntry} {shown : LogicalEntry}
    (hnames : Distinct entries) (hfits : FragmentsFit pattern entries)
    (hall : aggregate pattern entries = .ok all) (hshown : shown ∈ all)
    (hfile : shown.isFolder = false) (directory : String) :
    ((∃ plan, chunkPlan pattern entries directory shown.name = .ok (some plan) ∧
        plan.totalSize = shown.size.toNat) ↔ ¬ Contested pattern entries shown.name) ∧
      (Contested pattern entries shown.name →
        chunkPlan pattern entries directory shown.name = .error (.collision shown.name)) := by
  refine ⟨⟨?_, fun hfree => ?_⟩, chunkPlan_of_contested⟩
  · rintro ⟨plan, hplan, -⟩ hcontested
    rw [chunkPlan_of_contested hcontested] at hplan
    cases hplan
  obtain ⟨hliterals, hcases⟩ := of_aggregate hall
  rcases hcases shown hshown with hliteral | hmerged
  · obtain ⟨e, he, hkept, rfl⟩ := of_mem_literals hliteral
    have hdir : e.isDir = false := hfile
    have hstored : storedFile? entries e.name = some e := hnames.storedFile?_name he hdir
    refine ⟨_, chunkPlan_of_file (hliterals e he hkept) hstored, ?_⟩
    have htotal := totalSize_toChunk directory [e]
    have hsize := Size.toNat_le_limit e.size
    simp only [List.map_cons, List.map_nil, List.sum_cons, List.sum_nil, Nat.add_zero,
      Nat.min_eq_left hsize] at htotal
    rw [htotal]
    simp [LogicalEntry.ofStored, hdir]
  · obtain ⟨-, f, hf, hbase⟩ := of_mem_mergeFragments hmerged
    obtain ⟨hentry, hfragment⟩ := mem_fragments_iff.mp hf
    rw [hbase] at hfragment
    have hsome : fragmentsOf pattern entries shown.name ≠ [] :=
      List.ne_nil_of_mem (mem_fragmentsOf_iff.mpr ⟨hentry, _, hfragment⟩)
    have hnone : storedFile? entries shown.name = none := by
      rw [storedFile?_eq_none_iff]
      intro e he hdir hname
      exact hfree ⟨⟨f.entry, hentry, _, hfragment⟩, e, he, hdir, hname⟩
    refine ⟨_, chunkPlan_of_fragments hsome hnone, ?_⟩
    rw [totalSize_toChunk, toNat_size_of_mem_mergeFragments hfits hmerged]
    exact Nat.min_eq_left (hfits shown.name)

/-- A fragment of a file, and a fragment of a file that has the name of the former. -/
def nestedListing : List StoredEntry :=
  [.file "a.rclone_chunk.1" 3 noon, .file "a.rclone_chunk.1.rclone_chunk.1" 5 noon]

theorem aggregate_nestedListing : aggregate .standard nestedListing =
    .ok [⟨"a", 3, noon, noon, false⟩, ⟨"a.rclone_chunk.1", 5, noon, noon, false⟩] := by
  simp only [aggregate, literals, fragments_eq_insertionSort,
    LogicalEntry.mergeSort_eq_insertionSort]
  decide +kernel

theorem fragmentsFit_nestedListing : FragmentsFit .standard nestedListing := by
  rw [fragmentsFit_iff]
  simp only [fragmentsOf, fragments_eq_insertionSort]
  decide +kernel

/-- The outer file is shown and resolves. -/
theorem shown_resolves_nestedListing :
    Distinct nestedListing ∧ FragmentsFit .standard nestedListing ∧
      ¬ Contested .standard nestedListing "a" ∧
      ∃ plan, chunkPlan .standard nestedListing "/d" "a" = .ok (some plan) ∧
        plan.totalSize = 3 := by
  have hnames : Distinct nestedListing := by decide
  obtain ⟨hiff, -⟩ := shown_resolves_iff hnames fragmentsFit_nestedListing
    aggregate_nestedListing List.mem_cons_self rfl "/d"
  have hplan : ∃ plan, chunkPlan .standard nestedListing "/d" "a" = .ok (some plan) ∧
      plan.totalSize = 3 := by
    refine ⟨{ chunks := [⟨"/d/a.rclone_chunk.1", 3⟩] }, ?_, rfl⟩
    simp only [chunkPlan, fragmentsOf, fragments_eq_insertionSort]
    decide +kernel
  exact ⟨hnames, fragmentsFit_nestedListing, hiff.mp hplan, hplan⟩

/-- The name of the outer file's fragment is contested. -/
theorem contested_nestedListing :
    Contested .standard nestedListing "a.rclone_chunk.1" := by
  refine ⟨⟨.file "a.rclone_chunk.1.rclone_chunk.1" 5 noon, ?_, 1, rfl, by decide +kernel⟩,
    .file "a.rclone_chunk.1" 3 noon, ?_, rfl, rfl⟩
  · simp [nestedListing]
  · simp [nestedListing]

/-- The inner file is shown, but no plan is found for it. -/
theorem shown_unresolved_nestedListing :
    Distinct nestedListing ∧ FragmentsFit .standard nestedListing ∧
      ∃ all shown, aggregate .standard nestedListing = .ok all ∧ shown ∈ all ∧
        shown.isFolder = false ∧
        ∀ directory, ¬ ∃ plan,
          chunkPlan .standard nestedListing directory shown.name = .ok (some plan) ∧
            plan.totalSize = shown.size.toNat := by
  refine ⟨by decide, fragmentsFit_nestedListing, _, ⟨"a.rclone_chunk.1", 5, noon, noon, false⟩,
    aggregate_nestedListing, by simp, rfl, ?_⟩
  rintro directory ⟨plan, hplan, -⟩
  rw [chunkPlan_of_contested contested_nestedListing] at hplan
  cases hplan

end ChunkedFile
