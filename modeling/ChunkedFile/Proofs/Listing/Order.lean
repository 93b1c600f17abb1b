import ChunkedFile.Proofs.Listing.Resolution

/-!
# The order of a listing

Fragments are sorted, and fragments that the order does not tell apart stay as they were listed. So
a plan is the same for every order of the listing unless two fragments of the file have one ordinal,
written with different digits; then the plan depends on which of them was listed first. What is
shown never depends on the order: a file has the sum of its fragments' sizes and the outermost of
their times, in whatever order they are taken.
-/

namespace ChunkedFile

open List

variable {pattern : FragmentPattern} {entries listed : List StoredEntry} {e f : StoredEntry}
  {directory name base : String}

/-- Two fragments of the file have one ordinal. -/
def Ambiguous (pattern : FragmentPattern) (entries : List StoredEntry) (name : String) : Prop :=
  ∃ e ∈ entries, ∃ f ∈ entries, e ≠ f ∧
    ∃ ordinal, e.IsFragment pattern name ordinal ∧ f.IsFragment pattern name ordinal

/-- Names stay distinct in another order. -/
theorem Distinct.perm (h : Distinct entries) (hperm : listed.Perm entries) : Distinct listed :=
  (hperm.map StoredEntry.name).nodup_iff.mpr h

/-- The stored file that is found does not depend on the order of the listing. -/
theorem Distinct.storedFile?_perm (h : Distinct entries) (hperm : listed.Perm entries)
    (name : String) : storedFile? listed name = storedFile? entries name := by
  cases hfound : storedFile? entries name with
  | none =>
    rw [storedFile?_eq_none_iff] at hfound ⊢
    exact fun e he => hfound e (hperm.mem_iff.mp he)
  | some e =>
    obtain ⟨he, hfile, rfl⟩ := of_storedFile? hfound
    exact (h.perm hperm).storedFile?_name (hperm.mem_iff.mpr he) hfile

/-- The fragments of one file, with their bases and ordinals. -/
private def fragmentsWith (pattern : FragmentPattern) (entries : List StoredEntry)
    (name : String) : List Fragment :=
  (fragments pattern entries).filter (·.base == name)

private theorem fragmentsWith_perm (hperm : listed.Perm entries) :
    (fragmentsWith pattern listed name).Perm (fragmentsWith pattern entries name) := by
  refine Perm.filter _ ?_
  exact (mergeSort_perm _ _).trans ((hperm.filterMap _).trans (mergeSort_perm _ _).symm)

/-- The fragments of a file are those of the entries that have its base. -/
private theorem mem_fragmentsWith_iff {g : Fragment} :
    g ∈ fragmentsWith pattern entries name ↔
      g.base = name ∧ g.entry ∈ entries ∧ g.entry.IsFragment pattern name g.ordinal := by
  simp only [fragmentsWith, mem_filter, mem_fragments_iff, beq_iff_eq]
  constructor
  · rintro ⟨hfragment, rfl⟩
    exact ⟨rfl, hfragment⟩
  · rintro ⟨rfl, hfragment⟩
    exact ⟨hfragment, rfl⟩

/-- Whether there are fragments does not depend on the order of the listing. -/
theorem fragmentsOf_isEmpty_perm (hperm : listed.Perm entries) :
    (fragmentsOf pattern listed name).isEmpty = (fragmentsOf pattern entries name).isEmpty := by
  have hparts : (partsOf pattern listed name).Perm (partsOf pattern entries name) := hperm.filter _
  have hfragments := (fragmentsOf_perm_partsOf pattern listed name).trans
    (hparts.trans (fragmentsOf_perm_partsOf pattern entries name).symm)
  exact hfragments.isEmpty_eq

/-- Where ordinals tell the fragments of a file apart, their order is that of the ordinals. -/
theorem fragmentsOf_perm (h : ¬ Ambiguous pattern entries name) (hperm : listed.Perm entries) :
    fragmentsOf pattern listed name = fragmentsOf pattern entries name := by
  have hsame : fragmentsWith pattern listed name = fragmentsWith pattern entries name := by
    refine Perm.eq_of_pairwise ?_ ((fragments_pairwise pattern listed).filter _)
      ((fragments_pairwise pattern entries).filter _) (fragmentsWith_perm hperm)
    intro a b ha hb hab hba
    obtain ⟨habase, haentry, hafragment⟩ := mem_fragmentsWith_iff.mp ha
    obtain ⟨hbbase, hbentry, hbfragment⟩ := mem_fragmentsWith_iff.mp hb
    obtain ⟨hbase, hordinal⟩ := Fragment.before_antisymm hab hba
    have hentry : a.entry = b.entry := by
      by_cases heq : a.entry = b.entry
      · exact heq
      · rw [hordinal] at hafragment
        exact absurd ⟨a.entry, hperm.mem_iff.mp haentry, b.entry, hbentry, heq, _, hafragment,
          hbfragment⟩ h
    cases a
    cases b
    simp only at hbase hordinal hentry
    rw [hbase, hordinal, hentry]
  exact congrArg (map Fragment.entry) hsame

/-- Fragments with one ordinal stay as they were listed. -/
theorem pair_sublist_fragmentsOf {ordinal : Nat} (hlisted : [e, f] <+ entries)
    (he : e.IsFragment pattern name ordinal) (hf : f.IsFragment pattern name ordinal) :
    [e, f] <+ fragmentsOf pattern entries name := by
  have hentry : ∀ g : StoredEntry, g.IsFragment pattern name ordinal →
      Fragment.ofEntry? pattern g = some ⟨name, ordinal, g⟩ :=
    fun g hg => Fragment.ofEntry?_eq_some_iff.mpr ⟨rfl, hg⟩
  have hpair : [⟨name, ordinal, e⟩, ⟨name, ordinal, f⟩] <+
      entries.filterMap (Fragment.ofEntry? pattern) := by
    have hmapped := hlisted.filterMap (Fragment.ofEntry? pattern)
    simpa only [filterMap_cons, filterMap_nil, hentry e he, hentry f hf] using hmapped
  have hbefore : Fragment.before ⟨name, ordinal, e⟩ ⟨name, ordinal, f⟩ = true :=
    Fragment.before_iff.mpr ⟨String.le_refl name, fun _ => Nat.le_refl ordinal⟩
  have hsorted : [⟨name, ordinal, e⟩, ⟨name, ordinal, f⟩] <+ fragments pattern entries :=
    pair_sublist_mergeSort Fragment.before_trans Fragment.before_total hbefore hpair
  simpa [fragmentsOf] using (hsorted.filter (·.base == name)).map Fragment.entry

/-- No two fragments of a file have one name. -/
theorem Distinct.fragmentsOf (h : Distinct entries) (pattern : FragmentPattern) (name : String) :
    ((fragmentsOf pattern entries name).map StoredEntry.name).Nodup := by
  have hparts : ((partsOf pattern entries name).map StoredEntry.name).Nodup :=
    h.sublist (filter_sublist.map StoredEntry.name)
  exact ((fragmentsOf_perm_partsOf pattern entries name).map _).nodup_iff.mpr hparts

/-- In one directory different names have different addresses. -/
theorem joinAddress_inj {other : String} :
    joinAddress directory name = joinAddress directory other ↔ name = other := by
  rw [joinAddress, joinAddress, String.append_right_inj]

private theorem map_name_eq_of_map_toChunk {found other : List StoredEntry}
    (h : found.map (StoredEntry.toChunk directory) = other.map (StoredEntry.toChunk directory)) :
    found.map StoredEntry.name = other.map StoredEntry.name := by
  have hjoined : (found.map StoredEntry.name).map (joinAddress directory) =
      (other.map StoredEntry.name).map (joinAddress directory) := by
    have haddresses := congrArg (map ChunkRef.address) h
    rw [map_map, map_map] at haddresses ⊢
    exact haddresses
  exact (map_inj_right fun _ _ => joinAddress_inj.mp).mp hjoined

/-- Of two different things in a list one stands before the other. -/
private theorem pair_sublist_of_mem {α : Type} {a b : α} {items : List α} (ha : a ∈ items)
    (hb : b ∈ items) (hne : a ≠ b) : [a, b] <+ items ∨ [b, a] <+ items := by
  induction items with
  | nil => cases ha
  | cons first rest ih =>
    rcases mem_cons.mp ha with rfl | hrest
    · rcases mem_cons.mp hb with rfl | hlater
      · exact absurd rfl hne
      · exact Or.inl ((singleton_sublist.mpr hlater).cons_cons _)
    · rcases mem_cons.mp hb with rfl | hlater
      · exact Or.inr ((singleton_sublist.mpr hrest).cons_cons _)
      · exact (ih hrest hlater).imp (·.cons first) (·.cons first)

/-- In a list without repetition two things stand in one order only. -/
private theorem not_swapped_sublist {α : Type} {a b : α} {items : List α} (h : items.Nodup)
    (hab : [a, b] <+ items) : ¬ [b, a] <+ items := by
  intro hba
  induction items with
  | nil => cases hab
  | cons first rest ih =>
    obtain ⟨hfirst, hrest⟩ := nodup_cons.mp h
    cases hab with
    | cons _ hab =>
      cases hba with
      | cons _ hba => exact ih hrest hab hba
      | cons_cons _ hba => exact hfirst (hab.subset (by simp))
    | cons_cons _ hab =>
      cases hba with
      | cons _ hba => exact hfirst (hba.subset (by simp))
      | cons_cons _ hba => exact hfirst (hab.subset (by simp))

/-- Fragments with one ordinal are planned in the order in which they were listed. -/
private theorem chunkPlan_reverse_ne (h : Distinct entries)
    (hnone : storedFile? entries name = none) (hambiguous : Ambiguous pattern entries name) :
    chunkPlan pattern entries.reverse directory name ≠
      chunkPlan pattern entries directory name := by
  obtain ⟨e, he, f, hf, hne, ordinal, hefragment, hffragment⟩ := hambiguous
  have hreversed : storedFile? entries.reverse name = none :=
    (h.storedFile?_perm (reverse_perm entries) name).trans hnone
  have hsome : fragmentsOf pattern entries name ≠ [] :=
    ne_nil_of_mem (mem_fragmentsOf_iff.mpr ⟨he, ordinal, hefragment⟩)
  have hsome' : fragmentsOf pattern entries.reverse name ≠ [] :=
    ne_nil_of_mem (mem_fragmentsOf_iff.mpr ⟨mem_reverse.mpr he, ordinal, hefragment⟩)
  rw [chunkPlan_of_fragments hsome hnone, chunkPlan_of_fragments hsome' hreversed]
  intro heq
  simp only [Except.ok.injEq, Option.some.injEq, Plan.mk.injEq, and_true] at heq
  have hnames := map_name_eq_of_map_toChunk heq
  have hnodup := h.fragmentsOf pattern name
  have hswap : ∀ a b : StoredEntry, a.IsFragment pattern name ordinal →
      b.IsFragment pattern name ordinal → ¬ [a, b] <+ entries := by
    intro a b ha hb hab
    have hstraight := (pair_sublist_fragmentsOf hab ha hb).map StoredEntry.name
    have hback : [b, a] <+ entries.reverse := by simpa using hab.reverse
    have hbackward := (pair_sublist_fragmentsOf hback hb ha).map StoredEntry.name
    rw [hnames] at hbackward
    exact not_swapped_sublist hnodup hstraight hbackward
  rcases pair_sublist_of_mem he hf hne with hef | hfe
  · exact hswap e f hefragment hffragment hef
  · exact hswap f e hffragment hefragment hfe

/-- A plan is the same for every order of the listing exactly where there is a stored file of the
name or the ordinals tell the fragments of the file apart. -/
theorem chunkPlan_perm_iff (h : Distinct entries) (directory name : String) :
    (∀ listed, listed.Perm entries →
        chunkPlan pattern listed directory name = chunkPlan pattern entries directory name) ↔
      (∃ e ∈ entries, e.isDir = false ∧ e.name = name) ∨ ¬ Ambiguous pattern entries name := by
  cases hstored : storedFile? entries name with
  | some e =>
    obtain ⟨he, hfile, hname⟩ := of_storedFile? hstored
    refine ⟨fun _ => Or.inl ⟨e, he, hfile, hname⟩, fun _ listed hperm => ?_⟩
    rw [chunkPlan_eq, chunkPlan_eq, h.storedFile?_perm hperm, fragmentsOf_isEmpty_perm hperm,
      hstored]
    cases (fragmentsOf pattern entries name).isEmpty <;> rfl
  | none =>
    have hfree := storedFile?_eq_none_iff.mp hstored
    constructor
    · intro hsame
      refine Or.inr fun hambiguous => ?_
      exact chunkPlan_reverse_ne h hstored hambiguous (hsame _ (reverse_perm entries))
    · rintro (⟨e, he, hfile, hname⟩ | hplain) listed hperm
      · exact absurd hname (hfree e he hfile)
      · rw [chunkPlan_eq, chunkPlan_eq, h.storedFile?_perm hperm, fragmentsOf_perm hplain hperm]

/-- Two fragments of a file with the ordinal one. -/
def paddedListing : List StoredEntry :=
  [.file "a.rclone_chunk.1" 3 noon, .file "a.rclone_chunk.01" 5 noon]

/-- The plans for the two orders of the listing name the fragments in different orders. -/
theorem chunkPlan_paddedListing : Distinct paddedListing ∧
    paddedListing.reverse.Perm paddedListing ∧
    chunkPlan .standard paddedListing "/d" "a" =
      .ok (some { chunks := [⟨"/d/a.rclone_chunk.1", 3⟩, ⟨"/d/a.rclone_chunk.01", 5⟩] }) ∧
    chunkPlan .standard paddedListing.reverse "/d" "a" =
      .ok (some { chunks := [⟨"/d/a.rclone_chunk.01", 5⟩, ⟨"/d/a.rclone_chunk.1", 3⟩] }) ∧
    chunkPlan .standard paddedListing.reverse "/d" "a" ≠
      chunkPlan .standard paddedListing "/d" "a" := by
  have hlisted : chunkPlan .standard paddedListing "/d" "a" =
      .ok (some { chunks := [⟨"/d/a.rclone_chunk.1", 3⟩, ⟨"/d/a.rclone_chunk.01", 5⟩] }) := by
    simp only [chunkPlan, fragmentsOf, fragments_eq_insertionSort]
    decide +kernel
  have hreversed : chunkPlan .standard paddedListing.reverse "/d" "a" =
      .ok (some { chunks := [⟨"/d/a.rclone_chunk.01", 5⟩, ⟨"/d/a.rclone_chunk.1", 3⟩] }) := by
    simp only [chunkPlan, fragmentsOf, fragments_eq_insertionSort]
    decide +kernel
  refine ⟨by decide, reverse_perm _, hlisted, hreversed, ?_⟩
  rw [hlisted, hreversed]
  simp

/-- The two fragments of the nested listing belong to two files, so the plans do not depend on
their order. -/
theorem chunkPlan_perm_nestedListing : Distinct nestedListing ∧
    ∀ listed, listed.Perm nestedListing →
      chunkPlan .standard listed "/d" "a" = chunkPlan .standard nestedListing "/d" "a" := by
  have hnames : Distinct nestedListing := by decide
  have hfound : fragmentsOf .standard nestedListing "a" =
      [.file "a.rclone_chunk.1" 3 noon] := by
    simp only [fragmentsOf, fragments_eq_insertionSort]
    decide +kernel
  have honly : ∀ e ∈ nestedListing, ∀ ordinal, e.IsFragment .standard "a" ordinal →
      e = .file "a.rclone_chunk.1" 3 noon := by
    intro e he ordinal hfragment
    have hmem := mem_fragmentsOf_iff.mpr ⟨he, ordinal, hfragment⟩
    rw [hfound] at hmem
    exact mem_singleton.mp hmem
  refine ⟨hnames, (chunkPlan_perm_iff hnames "/d" "a").mpr (Or.inr ?_)⟩
  rintro ⟨e, he, f, hf, hne, ordinal, hefragment, hffragment⟩
  exact hne ((honly e he ordinal hefragment).trans (honly f hf ordinal hffragment).symm)

/-- Names collide in any order of the listing. -/
theorem collides_perm (hperm : listed.Perm entries) :
    Collides pattern listed base ↔ Collides pattern entries base := by
  simp only [Collides, hperm.mem_iff]

/-- The parts of a file come to one entry only. -/
theorem LogicalEntry.Merges.unique {shown other : LogicalEntry} {parts : List StoredEntry}
    (h : shown.Merges parts) (hother : other.Merges parts) (hname : shown.name = other.name) :
    shown = other := by
  have hmodified := h.modified.unique hother.modified
  have hcreated := h.created.unique hother.created
  have hsize := h.size.trans hother.size.symm
  have hfolder := h.isFolder.trans hother.isFolder.symm
  cases shown
  cases other
  simp only at hname hsize hmodified hcreated hfolder
  rw [hname, hsize, hmodified, hcreated, hfolder]

/-- What the fragments of a file are merged into does not depend on the order of the listing. -/
theorem filter_mergeFragments_perm (hperm : listed.Perm entries) (name : String) :
    (mergeFragments (fragments pattern listed)).filter (·.name == name) =
      (mergeFragments (fragments pattern entries)).filter (·.name == name) := by
  have hparts : (partsOf pattern listed name).Perm (partsOf pattern entries name) := hperm.filter _
  by_cases hnone : partsOf pattern entries name = []
  · rw [filter_mergeFragments_eq_nil hnone, filter_mergeFragments_eq_nil (hnone ▸ hparts).eq_nil]
  · have hsome : partsOf pattern listed name ≠ [] := fun hnil =>
      hnone (hnil ▸ hparts).nil_eq.symm
    obtain ⟨shown, hfilter, hname, hmerges⟩ := exists_filter_mergeFragments hsome
    obtain ⟨other, hfilter', hname', hmerges'⟩ := exists_filter_mergeFragments hnone
    rw [hfilter, hfilter', (hmerges.perm hparts).unique hmerges' (hname.trans hname'.symm)]

/-- No two entries have one name, so what is listed with a name does not depend on the order. -/
theorem Distinct.literalsNamed_perm (h : Distinct entries) (hperm : listed.Perm entries)
    (pattern : FragmentPattern) (name : String) :
    literalsNamed pattern listed name = literalsNamed pattern entries name := by
  have hsame : ∀ a b, a ∈ literalsNamed pattern listed name →
      b ∈ literalsNamed pattern entries name → a = b := by
    intro a b ha hb
    obtain ⟨ha, haname, -⟩ := mem_literalsNamed_iff.mp ha
    obtain ⟨hb, hbname, -⟩ := mem_literalsNamed_iff.mp hb
    exact inj_on_of_nodup_map h (hperm.mem_iff.mp ha) hb (haname.trans hbname.symm)
  have htrivial : ∀ found : List StoredEntry, found.Pairwise fun _ _ => True :=
    fun found => pairwise_of_forall fun _ _ => trivial
  exact Perm.eq_of_pairwise (fun a b ha hb _ _ => hsame a b ha hb) (htrivial _) (htrivial _)
    (hperm.filter _)

/-- Where names ascend, what is shown is told by what is shown under each name. -/
theorem eq_of_filter_name {all others : List LogicalEntry}
    (hall : all.Pairwise fun a b => a.name < b.name)
    (hothers : others.Pairwise fun a b => a.name < b.name)
    (h : ∀ name, all.filter (·.name == name) = others.filter (·.name == name)) :
    all = others := by
  have hmem : ∀ shown, shown ∈ all ↔ shown ∈ others := by
    intro shown
    have hnamed := h shown.name
    constructor <;> intro hshown
    · have hmem : shown ∈ all.filter (·.name == shown.name) := by simp [hshown]
      rw [hnamed] at hmem
      exact (mem_filter.mp hmem).1
    · have hmem : shown ∈ others.filter (·.name == shown.name) := by simp [hshown]
      rw [← hnamed] at hmem
      exact (mem_filter.mp hmem).1
  have hdistinct : ∀ {a b : LogicalEntry}, a.name < b.name → a ≠ b :=
    fun hlt heq => hlt.ne (congrArg LogicalEntry.name heq)
  have hperm := (perm_ext_iff_of_nodup (hall.imp hdistinct) (hothers.imp hdistinct)).mpr hmem
  exact hperm.eq_of_pairwise (fun a b _ _ hab hba => absurd hba hab.asymm) hall hothers

/-- What is shown of a listing, or the name for which it is refused, does not depend on the order in
which the entries are listed. -/
theorem aggregate_perm (h : Distinct entries) (hperm : listed.Perm entries) :
    aggregate pattern listed = aggregate pattern entries := by
  rcases aggregate_cases pattern entries with ⟨base, hleast, hrefused⟩ | ⟨hfree, -⟩
  · rw [hrefused, aggregate_eq_error_iff]
    simpa only [collides_perm hperm] using hleast
  · obtain ⟨all, hall⟩ : ∃ all, aggregate pattern entries = .ok all :=
      ⟨_, aggregate_eq_ok_iff.mpr ⟨hfree, rfl⟩⟩
    obtain ⟨others, hothers⟩ : ∃ others, aggregate pattern listed = .ok others :=
      ⟨_, aggregate_eq_ok_iff.mpr ⟨fun base => mt (collides_perm hperm).mp (hfree base), rfl⟩⟩
    rw [hall, hothers, Except.ok.injEq]
    refine eq_of_filter_name (shown_pairwise hothers) (shown_pairwise hall) fun name => ?_
    rw [filter_shown hothers, filter_shown hall, h.literalsNamed_perm hperm,
      filter_mergeFragments_perm hperm]

/-- A directory between two fragments with the ordinal one, of different times. -/
def tiedListing : List StoredEntry :=
  [.file "a.rclone_chunk.1" 3 noon, .dir "b" noon, .file "a.rclone_chunk.01" 5 midnight]

/-- Read backwards, the listing is shown as it is forwards. -/
theorem aggregate_perm_tiedListing : Distinct tiedListing ∧
    tiedListing.reverse.Perm tiedListing ∧
    aggregate .standard tiedListing.reverse =
      .ok [⟨"a", 8, noon, midnight, false⟩, ⟨"b", 0, noon, noon, true⟩] := by
  have hnames : Distinct tiedListing := by decide
  have hresult : aggregate .standard tiedListing =
      .ok [⟨"a", 8, noon, midnight, false⟩, ⟨"b", 0, noon, noon, true⟩] := by
    simp only [aggregate, literals, fragments_eq_insertionSort,
      LogicalEntry.mergeSort_eq_insertionSort]
    decide +kernel
  exact ⟨hnames, reverse_perm _,
    (aggregate_perm hnames (reverse_perm tiedListing)).trans hresult⟩

end ChunkedFile
