import ChunkedFile.Proofs.Listing.Resolution
import ChunkedFile.Proofs.Text.Slashes

/-!
# What a plan is found for

A name stands for the fragments of a file or for a stored file, and is refused where it stands for
both. Fragments are planned in the order of their ordinals as numbers, and those with one ordinal as
they are listed: the sort is over the fragments of all files at once, but it leaves fragments that
it does not tell apart as they stand.
-/

namespace ChunkedFile

variable {pattern : FragmentPattern} {entries : List StoredEntry} {e : StoredEntry}
  {directory name base : String}

/-- An entry is tried for a base and an ordinal by reading its name. -/
theorem StoredEntry.decide_isFragment (e : StoredEntry) (base : String) (ordinal : Nat) :
    decide (e.IsFragment pattern base ordinal) =
      (!e.isDir && (pattern.parse e.name).any fun parsed =>
        parsed.1 == base && parsed.2 == ordinal) := by
  rw [Bool.eq_iff_iff, decide_eq_true_eq, IsFragment]
  cases e.isDir <;> cases pattern.parse e.name <;> simp [Prod.ext_iff]

/-- The fragments of a file with one ordinal stand as they are listed. -/
theorem filter_fragmentsOf (pattern : FragmentPattern) (entries : List StoredEntry)
    (base : String) (ordinal : Nat) :
    (fragmentsOf pattern entries base).filter (·.IsFragment pattern base ordinal) =
      entries.filter (·.IsFragment pattern base ordinal) := by
  have hchosen : ∀ f ∈ fragments pattern entries,
      (decide (f.entry.IsFragment pattern base ordinal) && f.base == base) =
        (f.base == base && f.ordinal == ordinal) := by
    intro f hf
    obtain ⟨-, hfile, hparse⟩ := mem_fragments_iff.mp hf
    rw [StoredEntry.decide_isFragment, hfile, hparse]
    simp only [Bool.not_false, Bool.true_and, Option.any_some]
    rw [Bool.and_right_comm, Bool.and_self]
  calc
    _ = ((fragments pattern entries).filter fun f =>
          f.base == base && f.ordinal == ordinal).map Fragment.entry := by
      rw [fragmentsOf, List.filter_map, List.filter_filter]
      exact congrArg (List.map Fragment.entry) (List.filter_congr hchosen)
    _ = ((entries.filterMap (Fragment.ofEntry? pattern)).filter fun f =>
          f.base == base && f.ordinal == ordinal).map Fragment.entry := by
      -- the sort does not tell these fragments apart, so it leaves them as they are listed
      rw [fragments, filter_mergeSort_of_tied Fragment.before_trans Fragment.before_total]
      intro f g hf hg
      simp only [Bool.and_eq_true, beq_iff_eq] at hf hg
      rw [Fragment.before_iff, hf.1, hf.2, hg.1, hg.2]
      exact ⟨String.le_refl base, fun _ => Nat.le_refl ordinal⟩
    _ = entries.filter (·.IsFragment pattern base ordinal) := by
      rw [map_entry_filter_parsed fun parsed number => parsed == base && number == ordinal]
      simp only [StoredEntry.decide_isFragment]

/-- The fragments of a file stand in the order of their ordinals. -/
theorem fragmentsOf_pairwise (pattern : FragmentPattern) (entries : List StoredEntry)
    (base : String) : (fragmentsOf pattern entries base).Pairwise fun e f =>
      ∀ m n, e.IsFragment pattern base m → f.IsFragment pattern base n → m ≤ n := by
  rw [fragmentsOf, List.pairwise_map]
  refine ((fragments_pairwise pattern entries).filter _).imp_of_mem ?_
  intro f g hf hg hbefore m n hfirst hsecond
  obtain ⟨hf, hfbase⟩ := List.mem_filter.mp hf
  obtain ⟨hg, hgbase⟩ := List.mem_filter.mp hg
  rw [beq_iff_eq] at hfbase hgbase
  have hm := (mem_fragments_iff.mp hf).2.2
  have hn := (mem_fragments_iff.mp hg).2.2
  rw [hfirst.2, Option.some.injEq, Prod.mk.injEq] at hm
  rw [hsecond.2, Option.some.injEq, Prod.mk.injEq] at hn
  rw [hm.2, hn.2]
  exact (Fragment.before_iff.mp hbefore).2 (hfbase.trans hgbase.symm)

/-- All fragments of a file, each once: their ordinals do not decrease, and those with one ordinal
stand as they are listed. -/
structure Assembles (pattern : FragmentPattern) (entries : List StoredEntry) (base : String)
    (found : List StoredEntry) : Prop where
  parts : found.Perm (partsOf pattern entries base)
  ascending : found.Pairwise fun e f =>
    ∀ m n, e.IsFragment pattern base m → f.IsFragment pattern base n → m ≤ n
  listed : ∀ ordinal, found.filter (·.IsFragment pattern base ordinal) =
    entries.filter (·.IsFragment pattern base ordinal)

/-- The fragments that are found assemble the file. -/
theorem assembles_fragmentsOf (pattern : FragmentPattern) (entries : List StoredEntry)
    (base : String) : Assembles pattern entries base (fragmentsOf pattern entries base) where
  parts := fragmentsOf_perm_partsOf pattern entries base
  ascending := fragmentsOf_pairwise pattern entries base
  listed := filter_fragmentsOf pattern entries base

/-- What is found for a name in a directory: a collision, nothing, the plan of the fragments or that
of the first stored file of the name. A chunk has the address of the directory without the slashes
at its end, a slash and the name of the entry. -/
structure Finds (pattern : FragmentPattern) (entries : List StoredEntry) (directory name : String)
    (result : Except Error (Option Plan)) : Prop where
  refused : result = .error (.collision name) ↔
    (∃ e ∈ entries, ∃ ordinal, e.IsFragment pattern name ordinal) ∧
      ∃ e ∈ entries, e.isDir = false ∧ e.name = name
  nothing : result = .ok none ↔
    (∀ e ∈ entries, ∀ ordinal, ¬ e.IsFragment pattern name ordinal) ∧
      ∀ e ∈ entries, e.isDir = false → e.name ≠ name
  fragments : (∃ e ∈ entries, ∃ ordinal, e.IsFragment pattern name ordinal) →
    (∀ e ∈ entries, e.isDir = false → e.name ≠ name) →
      ∃ stem found, Text.Stems directory stem ∧ Assembles pattern entries name found ∧
        result = .ok (some { chunks := found.map fun e => ⟨stem ++ "/" ++ e.name, e.size⟩ })
  file : ∀ before e after, entries = before ++ e :: after →
    (∀ f ∈ entries, ∀ ordinal, ¬ f.IsFragment pattern name ordinal) →
      e.isDir = false → e.name = name → (∀ f ∈ before, f.isDir = false → f.name ≠ name) →
        ∃ stem, Text.Stems directory stem ∧
          result = .ok (some { chunks := [⟨stem ++ "/" ++ e.name, e.size⟩] })

/-- None are found where no entry is a fragment of the file. -/
theorem fragmentsOf_eq_nil_iff : fragmentsOf pattern entries name = [] ↔
    ∀ e ∈ entries, ∀ ordinal, ¬ e.IsFragment pattern name ordinal := by
  simp only [List.eq_nil_iff_forall_not_mem, mem_fragmentsOf_iff, not_and, not_exists]

/-- Where there is neither a fragment nor a file of the name, there is no plan. -/
theorem chunkPlan_of_nothing (hnone : fragmentsOf pattern entries name = [])
    (hfree : storedFile? entries name = none) :
    chunkPlan pattern entries directory name = .ok none := by
  rw [chunkPlan_eq, hnone, hfree]
  rfl

/-- A name is refused exactly where it is contested. -/
theorem chunkPlan_eq_collision_iff :
    chunkPlan pattern entries directory name = .error (.collision name) ↔
      Contested pattern entries name := by
  refine ⟨fun h => ?_, chunkPlan_of_contested⟩
  cases hstored : storedFile? entries name with
  | none =>
    by_cases hnone : fragmentsOf pattern entries name = []
    · rw [chunkPlan_of_nothing hnone hstored] at h
      cases h
    · rw [chunkPlan_of_fragments hnone hstored] at h
      cases h
  | some f =>
    by_cases hnone : fragmentsOf pattern entries name = []
    · rw [chunkPlan_of_file hnone hstored] at h
      cases h
    · obtain ⟨e, hfound⟩ := List.exists_mem_of_ne_nil _ hnone
      obtain ⟨he, hfragment⟩ := mem_fragmentsOf_iff.mp hfound
      exact ⟨⟨e, he, hfragment⟩, f, of_storedFile? hstored⟩

/-- A name is refused for nothing else. -/
theorem error_of_chunkPlan {error : Error}
    (h : chunkPlan pattern entries directory name = .error error) : error = .collision name := by
  rw [chunkPlan_eq] at h
  split at h
  · cases h
    rfl
  · cases h
  · cases h
  · cases h

/-- Nothing is found exactly where there are neither fragments nor a stored file. -/
theorem chunkPlan_eq_none_iff : chunkPlan pattern entries directory name = .ok none ↔
    fragmentsOf pattern entries name = [] ∧ storedFile? entries name = none := by
  refine ⟨fun h => ?_, fun h => chunkPlan_of_nothing h.1 h.2⟩
  rw [chunkPlan_eq] at h
  cases hfound : fragmentsOf pattern entries name with
  | nil =>
    refine ⟨rfl, ?_⟩
    cases hstored : storedFile? entries name with
    | none => rfl
    | some f => simp [hfound, hstored] at h
  | cons e rest => cases hstored : storedFile? entries name <;> simp [hfound, hstored] at h

/-- The chunks of a plan that is found are entries of the listing. -/
theorem of_chunkPlan {plan : Plan}
    (h : chunkPlan pattern entries directory name = .ok (some plan)) :
    ∃ found : List StoredEntry, (∀ e ∈ found, e ∈ entries) ∧
      plan = { chunks := found.map (StoredEntry.toChunk directory) } := by
  rw [chunkPlan_eq] at h
  split at h
  · cases h
  · cases h
    exact ⟨_, fun e he => (mem_fragmentsOf_iff.mp he).1, rfl⟩
  · rename_i e _ hstored
    cases h
    exact ⟨[e], fun f hf => List.mem_singleton.mp hf ▸ (of_storedFile? hstored).1, rfl⟩
  · cases h

/-- The first stored file of a name is found. -/
theorem storedFile?_append {before after : List StoredEntry} (hfile : e.isDir = false)
    (hname : e.name = name) (hbefore : ∀ f ∈ before, f.isDir = false → f.name ≠ name) :
    storedFile? (before ++ e :: after) name = some e := by
  have hnone := storedFile?_eq_none_iff.mpr hbefore
  rw [storedFile?] at hnone ⊢
  rw [List.find?_append, hnone, Option.none_or, List.find?_cons_of_pos (by simp [hfile, hname])]

/-- Whatever is listed, a name is refused, missed or planned as the fragments and the stored files
with it say. -/
theorem chunkPlan_finds (pattern : FragmentPattern) (entries : List StoredEntry)
    (directory name : String) :
    Finds pattern entries directory name (chunkPlan pattern entries directory name) where
  refused := chunkPlan_eq_collision_iff
  nothing := by
    rw [← fragmentsOf_eq_nil_iff, ← storedFile?_eq_none_iff]
    exact chunkPlan_eq_none_iff
  fragments := by
    rintro ⟨e, he, ordinal, hfragment⟩ hfree
    have hsome : fragmentsOf pattern entries name ≠ [] :=
      List.ne_nil_of_mem (mem_fragmentsOf_iff.mpr ⟨he, ordinal, hfragment⟩)
    exact ⟨_, _, Text.stems_trimTrailingSlashes directory,
      assembles_fragmentsOf pattern entries name,
      chunkPlan_of_fragments hsome (storedFile?_eq_none_iff.mpr hfree)⟩
  file := by
    rintro before e after rfl hnone hfile hname hbefore
    exact ⟨_, Text.stems_trimTrailingSlashes directory,
      chunkPlan_of_file (fragmentsOf_eq_nil_iff.mpr hnone)
        (storedFile?_append hfile hname hbefore)⟩

/-- Fragments of one file whose ordinals, as texts, would stand in another order, two of them with
one ordinal. -/
def numberedListing : List StoredEntry :=
  [.file "a.rclone_chunk.10" 1 noon, .file "a.rclone_chunk.2" 5 noon, .dir "a" noon,
    .file "b.rclone_chunk.1" 7 noon, .file "a.rclone_chunk.02" 3 noon]

/-- The fragments are found in the order of their numbers, ties as they were listed. -/
theorem chunkPlan_finds_numberedListing :
    ∃ stem found, Text.Stems "/d//" stem ∧ Assembles .standard numberedListing "a" found ∧
      found.map (fun e => (⟨stem ++ "/" ++ e.name, e.size⟩ : ChunkRef)) =
        [⟨"/d/a.rclone_chunk.2", 5⟩, ⟨"/d/a.rclone_chunk.02", 3⟩, ⟨"/d/a.rclone_chunk.10", 1⟩] := by
  have hresult : chunkPlan .standard numberedListing "/d//" "a" =
      .ok (some { chunks := [⟨"/d/a.rclone_chunk.2", 5⟩, ⟨"/d/a.rclone_chunk.02", 3⟩,
        ⟨"/d/a.rclone_chunk.10", 1⟩] }) := by
    simp only [chunkPlan, fragmentsOf, fragments_eq_insertionSort]
    decide +kernel
  have hfragment : ∃ e ∈ numberedListing, ∃ ordinal, e.IsFragment .standard "a" ordinal :=
    ⟨.file "a.rclone_chunk.10" 1 noon, by simp [numberedListing], 10, rfl, by decide +kernel⟩
  obtain ⟨stem, found, hstem, hfound, hplan⟩ :=
    (chunkPlan_finds .standard numberedListing "/d//" "a").fragments hfragment (by decide)
  rw [hresult, Except.ok.injEq, Option.some.injEq, Plan.mk.injEq] at hplan
  exact ⟨stem, found, hstem, hfound, hplan.1.symm⟩

end ChunkedFile
