import ChunkedFile.Proofs.Listing.Groups
import ChunkedFile.Proofs.Text.Bytes

/-!
# What a directory shows

An entry that is no fragment is shown as it is, and of several such entries with one name the last
listed. A file that was cut into fragments is shown as one entry. Both are sorted by name, and no
name is shown twice: where one name would stand for a file with fragments and for another entry, the
listing is refused.
-/

namespace ChunkedFile

variable {pattern : FragmentPattern} {entries : List StoredEntry} {e : StoredEntry}
  {all : List LogicalEntry} {name base : String}

namespace LogicalEntry

theorem before_iff {a b : LogicalEntry} : a.before b = true ↔ a.name ≤ b.name := by
  simp [before]

theorem before_trans (a b c : LogicalEntry) (hab : a.before b = true) (hbc : b.before c = true) :
    a.before c = true :=
  before_iff.mpr ((before_iff.mp hab).trans (before_iff.mp hbc))

theorem before_total (a b : LogicalEntry) : (a.before b || b.before a) = true := by
  rw [Bool.or_eq_true, before_iff, before_iff]
  exact le_total a.name b.name

/-- Sorted entries have ascending names. -/
theorem mergeSort_pairwise (all : List LogicalEntry) :
    (all.mergeSort before).Pairwise fun a b => a.name ≤ b.name :=
  (List.pairwise_mergeSort before_trans before_total all).imp before_iff.mp

/-- Entries can be sorted by insertion instead. -/
theorem mergeSort_eq_insertionSort (all : List LogicalEntry) :
    all.mergeSort before = all.insertionSort fun a b => a.before b = true :=
  ChunkedFile.mergeSort_eq_insertionSort before_trans before_total all

/-- Sorting keeps entries of one name in the order in which they were. -/
theorem filter_mergeSort (all : List LogicalEntry) (name : String) :
    (all.mergeSort before).filter (·.name == name) = all.filter (·.name == name) := by
  refine filter_mergeSort_of_tied before_trans before_total (fun a b ha hb => ?_) all
  rw [beq_iff_eq] at ha hb
  exact before_iff.mpr (ha.trans hb.symm).le

end LogicalEntry

/-- Keeping the last of each name only leaves entries out. -/
theorem lastOfEachName_sublist (all : List LogicalEntry) : (lastOfEachName all).Sublist all := by
  induction all using lastOfEachName.induct with
  | case1 => exact .slnil
  | case2 e => exact .refl [e]
  | case3 first next rest hsame ih =>
    rw [lastOfEachName, if_pos hsame]
    exact ih.cons first
  | case4 first next rest hsame ih =>
    rw [lastOfEachName, if_neg hsame]
    exact ih.cons_cons first

/-- No name is left twice. -/
theorem lastOfEachName_pairwise (h : all.Pairwise fun a b => a.name ≤ b.name) :
    (lastOfEachName all).Pairwise fun a b => a.name < b.name := by
  induction all using lastOfEachName.induct with
  | case1 => exact .nil
  | case2 e => exact List.pairwise_singleton _ e
  | case3 first next rest hsame ih =>
    rw [lastOfEachName, if_pos hsame]
    exact ih h.tail
  | case4 first next rest hsame ih =>
    rw [lastOfEachName, if_neg hsame]
    obtain ⟨hfirst, hrest⟩ := List.pairwise_cons.mp h
    refine List.pairwise_cons.mpr ⟨fun later hlater => ?_, ih hrest⟩
    have hlt : first.name < next.name :=
      lt_of_le_of_ne (hfirst next List.mem_cons_self) hsame
    rcases List.mem_cons.mp ((lastOfEachName_sublist _).subset hlater) with rfl | hlater
    · exact hlt
    · exact hlt.trans_le ((List.pairwise_cons.mp hrest).1 later hlater)

/-- Of the entries with one name the last is left. -/
theorem filter_lastOfEachName (h : all.Pairwise fun a b => a.name ≤ b.name) (name : String) :
    (lastOfEachName all).filter (·.name == name) =
      (all.filter (·.name == name)).getLast?.toList := by
  induction all using lastOfEachName.induct with
  | case1 => rfl
  | case2 e => by_cases hname : e.name = name <;> simp [lastOfEachName, hname]
  | case3 first next rest hsame ih =>
    rw [lastOfEachName, if_pos hsame, ih h.tail]
    by_cases hname : first.name = name
    · have hnext : next.name = name := hsame.symm.trans hname
      simp [hname, hnext]
    · simp [hname]
  | case4 first next rest hsame ih =>
    rw [lastOfEachName, if_neg hsame]
    have hrest := ih h.tail
    by_cases hname : first.name = name
    · -- all later names are greater
      have hnone : (next :: rest).filter (·.name == name) = [] := by
        rw [List.filter_eq_nil_iff]
        intro later hlater
        obtain ⟨hfirst, htail⟩ := List.pairwise_cons.mp h
        have hlt : first.name < next.name :=
          lt_of_le_of_ne (hfirst next List.mem_cons_self) hsame
        have hle : next.name ≤ later.name := by
          rcases List.mem_cons.mp hlater with rfl | hlater
          · exact le_refl _
          · exact (List.pairwise_cons.mp htail).1 later hlater
        simpa [← hname] using (hlt.trans_le hle).ne'
      rw [hnone] at hrest
      rw [List.filter_cons_of_pos (by simpa using hname), hrest,
        List.filter_cons_of_pos (by simpa using hname), hnone]
      rfl
    · have hdrop : ∀ later, (first :: later).filter (·.name == name) =
          later.filter (·.name == name) :=
        fun later => List.filter_cons_of_neg (by simpa using hname)
      rw [hdrop, hdrop, hrest]

/-- The entries with a name that are shown as they are, as they are listed. -/
def literalsNamed (pattern : FragmentPattern) (entries : List StoredEntry) (name : String) :
    List StoredEntry :=
  entries.filter fun e => e.name == name && e.isLiteral pattern

theorem mem_literalsNamed_iff : e ∈ literalsNamed pattern entries name ↔
    e ∈ entries ∧ e.name = name ∧ e.isLiteral pattern = true := by
  simp [literalsNamed]

/-- The entries that are shown as they are have strictly ascending names. -/
theorem literals_pairwise (pattern : FragmentPattern) (entries : List StoredEntry) :
    (literals pattern entries).Pairwise fun a b => a.name < b.name :=
  lastOfEachName_pairwise (LogicalEntry.mergeSort_pairwise _)

/-- Of the entries with one name that are shown as they are the last listed is shown. -/
theorem filter_literals (pattern : FragmentPattern) (entries : List StoredEntry) (name : String) :
    (literals pattern entries).filter (·.name == name) =
      ((literalsNamed pattern entries name).getLast?.map LogicalEntry.ofStored).toList := by
  rw [literals, filter_lastOfEachName (LogicalEntry.mergeSort_pairwise _),
    LogicalEntry.filter_mergeSort, List.filter_map, List.getLast?_map, List.filter_filter]
  rfl

/-- What is shown as it is comes from an entry. -/
theorem of_mem_literals {shown : LogicalEntry} (h : shown ∈ literals pattern entries) :
    ∃ e ∈ entries, e.isLiteral pattern = true ∧ shown = .ofStored e := by
  have hmem := List.mem_mergeSort.mp ((lastOfEachName_sublist _).subset h)
  rw [List.mem_map] at hmem
  obtain ⟨e, he, rfl⟩ := hmem
  obtain ⟨hentry, hliteral⟩ := List.mem_filter.mp he
  exact ⟨e, hentry, hliteral, rfl⟩

/-- For each entry that is shown as it is something of its name is shown. -/
theorem exists_mem_literals (he : e ∈ entries) (hliteral : e.isLiteral pattern = true) :
    ∃ shown ∈ literals pattern entries, shown.name = e.name := by
  have hmem := mem_literalsNamed_iff.mpr ⟨he, rfl, hliteral⟩
  have hfilter := filter_literals pattern entries e.name
  rw [List.getLast?_eq_some_getLast (List.ne_nil_of_mem hmem), Option.map_some,
    Option.toList_some] at hfilter
  have hshown := List.mem_singleton_self (LogicalEntry.ofStored
    ((literalsNamed pattern entries e.name).getLast (List.ne_nil_of_mem hmem)))
  rw [← hfilter, List.mem_filter, beq_iff_eq] at hshown
  exact ⟨_, hshown⟩

/-- The name is the base of a fragment, and the name of a directory or of a file that is no
fragment. -/
def Collides (pattern : FragmentPattern) (entries : List StoredEntry) (base : String) : Prop :=
  (∃ e ∈ entries, ∃ ordinal, e.IsFragment pattern base ordinal) ∧
    ∃ e ∈ entries, e.name = base ∧ (e.isDir = true ∨ pattern.parse e.name = none)

/-- Directories and files that are no fragments are shown as they are. -/
theorem StoredEntry.isLiteral_iff :
    e.isLiteral pattern = true ↔ e.isDir = true ∨ pattern.parse e.name = none := by
  simp [isLiteral]

/-- A name collides where a fragment has it for its base and an entry shown as it is has it. -/
theorem collides_iff : Collides pattern entries base ↔
    (∃ f ∈ fragments pattern entries, f.base = base) ∧
      (literals pattern entries).any (·.name == base) = true := by
  simp only [Collides, List.any_eq_true, beq_iff_eq, mem_fragments_iff]
  refine and_congr ⟨?_, ?_⟩ ⟨?_, ?_⟩
  · rintro ⟨e, he, ordinal, hfragment⟩
    exact ⟨⟨base, ordinal, e⟩, ⟨he, hfragment⟩, rfl⟩
  · rintro ⟨f, ⟨hentry, hfragment⟩, rfl⟩
    exact ⟨f.entry, hentry, f.ordinal, hfragment⟩
  · rintro ⟨e, he, rfl, hkept⟩
    exact exists_mem_literals he (StoredEntry.isLiteral_iff.mpr hkept)
  · rintro ⟨shown, hshown, rfl⟩
    obtain ⟨e, he, hliteral, rfl⟩ := of_mem_literals hshown
    exact ⟨e, he, rfl, StoredEntry.isLiteral_iff.mp hliteral⟩

/-- A name collides where there are parts of a file of this name, and other entries with it. -/
theorem collides_iff_ne_nil : Collides pattern entries base ↔
    partsOf pattern entries base ≠ [] ∧ literalsNamed pattern entries base ≠ [] := by
  rw [Collides, partsOf_ne_nil_iff, ← List.isEmpty_eq_false_iff,
    List.isEmpty_eq_false_iff_exists_mem]
  simp only [mem_literalsNamed_iff, StoredEntry.isLiteral_iff]

/-- A listing is refused for the least name that collides, and shown where none does. -/
theorem aggregate_cases (pattern : FragmentPattern) (entries : List StoredEntry) :
    (∃ base, IsLeast {b | Collides pattern entries b} base ∧
        aggregate pattern entries = .error (.collision base)) ∨
      (∀ base, ¬ Collides pattern entries base) ∧ aggregate pattern entries =
        .ok ((literals pattern entries ++ mergeFragments (fragments pattern entries)).mergeSort
          LogicalEntry.before) := by
  unfold aggregate
  cases hfind : (fragments pattern entries).find? fun f =>
      (literals pattern entries).any (·.name == f.base) with
  | none =>
    refine Or.inr ⟨fun base hcollides => ?_, by simp only [hfind]⟩
    obtain ⟨⟨f, hf, rfl⟩, hliteral⟩ := collides_iff.mp hcollides
    exact List.find?_eq_none.mp hfind f hf hliteral
  | some f =>
    obtain ⟨hliteral, before, after, hsplit, hbefore⟩ := List.find?_eq_some_iff_append.mp hfind
    have hf : f ∈ fragments pattern entries := hsplit ▸ List.mem_append_right _ List.mem_cons_self
    refine Or.inl ⟨f.base, ⟨collides_iff.mpr ⟨⟨f, hf, rfl⟩, hliteral⟩, ?_⟩, by simp only [hfind]⟩
    intro base hcollides
    obtain ⟨⟨g, hg, rfl⟩, hother⟩ := collides_iff.mp hcollides
    -- fragments whose names collide do not come before the first one
    have hsorted := fragments_pairwise_base pattern entries
    rw [hsplit] at hg hsorted
    rcases List.mem_append.mp hg with hg | hg
    · exact absurd hother (by simpa using hbefore g hg)
    · rcases List.mem_cons.mp hg with rfl | hg
      · exact le_refl _
      · exact (List.pairwise_cons.mp (List.pairwise_append.mp hsorted).2.1).1 g hg

/-- A listing is refused for the least name that collides. -/
theorem aggregate_eq_error_iff : aggregate pattern entries = .error (.collision base) ↔
    IsLeast {b | Collides pattern entries b} base := by
  rcases aggregate_cases pattern entries with ⟨first, hleast, heq⟩ | ⟨hfree, heq⟩
  · rw [heq, Except.error.injEq, Error.collision.injEq]
    exact ⟨fun h => h ▸ hleast, fun h => hleast.unique h⟩
  · rw [heq]
    exact ⟨nofun, fun h => absurd h.1 (hfree base)⟩

/-- A listing without collisions is shown as its literals and merged fragments, by name. -/
theorem aggregate_eq_ok_iff : aggregate pattern entries = .ok all ↔
    (∀ base, ¬ Collides pattern entries base) ∧
      (literals pattern entries ++ mergeFragments (fragments pattern entries)).mergeSort
        LogicalEntry.before = all := by
  rcases aggregate_cases pattern entries with ⟨first, hleast, heq⟩ | ⟨hfree, heq⟩
  · rw [heq]
    exact ⟨nofun, fun h => absurd hleast.1 (h.1 first)⟩
  · rw [heq, Except.ok.injEq]
    exact ⟨fun h => ⟨hfree, h⟩, fun h => h.2⟩

/-- A file with fragments is shown as what they are merged into, another name as the last entry
listed with it. -/
theorem filter_shown (h : aggregate pattern entries = .ok all) (name : String) :
    all.filter (·.name == name) =
      ((literalsNamed pattern entries name).getLast?.map LogicalEntry.ofStored).toList ++
        (mergeFragments (fragments pattern entries)).filter (·.name == name) := by
  obtain ⟨-, rfl⟩ := aggregate_eq_ok_iff.mp h
  rw [LogicalEntry.filter_mergeSort, List.filter_append, filter_literals]

/-- No fragment belongs to a file of the name of an entry that is shown as it is. -/
theorem partsOf_eq_nil_of_literal (h : aggregate pattern entries = .ok all)
    (he : e ∈ literalsNamed pattern entries name) : partsOf pattern entries name = [] := by
  by_contra hparts
  exact (aggregate_eq_ok_iff.mp h).1 name
    (collides_iff_ne_nil.mpr ⟨hparts, List.ne_nil_of_mem he⟩)

/-- Of the entries with one name that are shown as they are the last listed is shown, and nothing
else. -/
theorem filter_shown_of_literal (h : aggregate pattern entries = .ok all)
    (he : e ∈ literalsNamed pattern entries name) : all.filter (·.name == name) =
      ((literalsNamed pattern entries name).getLast?.map LogicalEntry.ofStored).toList := by
  rw [filter_shown h, filter_mergeFragments_eq_nil (partsOf_eq_nil_of_literal h he),
    List.append_nil]

/-- What is shown is a literal or a merged file. -/
theorem mem_shown_iff {shown : LogicalEntry} (h : aggregate pattern entries = .ok all) :
    shown ∈ all ↔ shown ∈ literals pattern entries ∨
      shown ∈ mergeFragments (fragments pattern entries) := by
  obtain ⟨-, rfl⟩ := aggregate_eq_ok_iff.mp h
  rw [List.mem_mergeSort, List.mem_append]

/-- No name is shown twice. -/
theorem shown_pairwise (h : aggregate pattern entries = .ok all) :
    all.Pairwise fun a b => a.name < b.name := by
  obtain ⟨hfree, rfl⟩ := aggregate_eq_ok_iff.mp h
  have hdistinct : (literals pattern entries ++
      mergeFragments (fragments pattern entries)).Pairwise fun a b => a.name ≠ b.name := by
    refine List.pairwise_append.mpr ⟨(literals_pairwise pattern entries).imp ne_of_lt,
      mergeFragments_pairwise (fragments_pairwise_base pattern entries), ?_⟩
    intro shown hshown merged hmerged hname
    obtain ⟨e, he, hliteral, rfl⟩ := of_mem_literals hshown
    have hmem := mem_literalsNamed_iff.mpr ⟨he, hname, hliteral⟩
    exact hfree merged.name (collides_iff_ne_nil.mpr
      ⟨partsOf_ne_nil_of_mem_mergeFragments hmerged, List.ne_nil_of_mem hmem⟩)
  have hsorted := (List.mergeSort_perm _ LogicalEntry.before).symm.pairwise hdistinct
    fun hne => hne.symm
  exact ((LogicalEntry.mergeSort_pairwise _).and hsorted).imp fun h => lt_of_le_of_ne h.1 h.2

/-- No name is shown twice. -/
theorem shown_nodup (h : aggregate pattern entries = .ok all) :
    (all.map LogicalEntry.name).Nodup :=
  List.pairwise_map.mpr ((shown_pairwise h).imp ne_of_lt)

/-- What is shown is an entry that is shown as it is or a merged one, and no name of the former is
the base of a fragment. -/
theorem of_aggregate (h : aggregate pattern entries = .ok all) :
    (∀ e ∈ entries, e.isLiteral pattern = true → fragmentsOf pattern entries e.name = []) ∧
      ∀ shown ∈ all, shown ∈ literals pattern entries ∨
        shown ∈ mergeFragments (fragments pattern entries) := by
  refine ⟨fun e he hliteral => ?_, fun shown => (mem_shown_iff h).mp⟩
  apply List.Perm.eq_nil
  rw [← partsOf_eq_nil_of_literal h (mem_literalsNamed_iff.mpr ⟨he, rfl, hliteral⟩)]
  exact fragmentsOf_perm_partsOf pattern entries e.name

/-- The entries by the bytes of their names: one for each file with fragments, with the sum of the
sizes and the outermost times of its parts, and others only for names of directories and of files
that are no fragments. -/
structure Shows (pattern : FragmentPattern) (entries : List StoredEntry)
    (all : List LogicalEntry) : Prop where
  ascending : all.Pairwise fun a b => Text.bytes a.name < Text.bytes b.name
  file : ∀ base, partsOf pattern entries base ≠ [] →
    ∃ shown, all.filter (·.name == base) = [shown] ∧ shown.isFolder = false ∧
      shown.size.toNat = ((partsOf pattern entries base).map fun e => e.size.toNat).sum ∧
      IsGreatest {t | ∃ e ∈ partsOf pattern entries base, e.modified = t} shown.modified ∧
      IsLeast {t | ∃ e ∈ partsOf pattern entries base, e.created = t} shown.created
  other : ∀ shown ∈ all, partsOf pattern entries shown.name = [] →
    ∃ e ∈ entries, e.name = shown.name ∧ (e.isDir = true ∨ pattern.parse e.name = none)

/-- What is made of a listing shows it. -/
theorem Shows.of_aggregate (hfits : FragmentsFit pattern entries)
    (h : aggregate pattern entries = .ok all) : Shows pattern entries all where
  ascending := (shown_pairwise h).imp Text.bytes_lt_bytes
  file base hparts := by
    obtain ⟨shown, hmerged, -, hmerges⟩ := exists_filter_mergeFragments hparts
    have hliterals : literalsNamed pattern entries base = [] := by
      rw [List.eq_nil_iff_forall_not_mem]
      intro e he
      exact hparts (partsOf_eq_nil_of_literal h he)
    refine ⟨shown, ?_, hmerges.isFolder, ?_, hmerges.modified, hmerges.created⟩
    · rw [filter_shown h, hliterals, hmerged]
      rfl
    · exact hmerges.toNat_size (hfits.partsOf base)
  other shown hshown hparts := by
    rcases (mem_shown_iff h).mp hshown with hliteral | hmerged
    · obtain ⟨e, he, hkept, rfl⟩ := of_mem_literals hliteral
      exact ⟨e, he, rfl, StoredEntry.isLiteral_iff.mp hkept⟩
    · exact absurd hparts (partsOf_ne_nil_of_mem_mergeFragments hmerged)

/-- A listing is refused exactly where a name collides, for the first such name, and shown as its
entries say where none does. -/
theorem aggregate_shows (hfits : FragmentsFit pattern entries) :
    ((∃ base, aggregate pattern entries = .error (.collision base)) ↔
      ∃ base, Collides pattern entries base) ∧
    (∀ base, aggregate pattern entries = .error (.collision base) ↔
      Collides pattern entries base ∧ ∀ other, Collides pattern entries other →
        Text.bytes base ≤ Text.bytes other) ∧
    ((∀ base, ¬ Collides pattern entries base) →
      ∃ all, aggregate pattern entries = .ok all ∧ Shows pattern entries all) := by
  refine ⟨⟨?_, ?_⟩, fun base => ?_, fun hfree => ?_⟩
  · rintro ⟨base, h⟩
    exact ⟨base, (aggregate_eq_error_iff.mp h).1⟩
  · rintro ⟨base, hcollides⟩
    rcases aggregate_cases pattern entries with ⟨first, -, h⟩ | ⟨hfree, -⟩
    · exact ⟨first, h⟩
    · exact absurd hcollides (hfree base)
  · simp only [Text.bytes_le_bytes_iff]
    exact aggregate_eq_error_iff
  · have h := aggregate_eq_ok_iff.mpr ⟨hfree, rfl⟩
    exact ⟨_, h, .of_aggregate hfits h⟩

/-- Noon of the first day of 2024. -/
def noon : Instant := ⟨2024, 1, 1, 12, 0, 0, 0, by decide, by decide, by decide, by decide,
  by decide, by decide, by decide, by decide, by decide, by decide, by decide⟩

/-- The midnight before. -/
def midnight : Instant := ⟨2024, 1, 1, 0, 0, 0, 0, by decide, by decide, by decide, by decide,
  by decide, by decide, by decide, by decide, by decide, by decide, by decide⟩

/-- A directory, a file, and the two fragments of another file. -/
def mixedListing : List StoredEntry :=
  [.dir "b" noon, .file "a.rclone_chunk.2" 5 noon, .file "c" 7 noon,
    .file "a.rclone_chunk.001" 3 midnight]

/-- The fragments make one entry, and the others stay as they are. -/
theorem aggregate_shows_mixedListing : FragmentsFit .standard mixedListing ∧
    (∀ base, ¬ Collides .standard mixedListing base) ∧
      Shows .standard mixedListing [⟨"a", 8, noon, midnight, false⟩, ⟨"b", 0, noon, noon, true⟩,
        ⟨"c", 7, noon, noon, false⟩] := by
  have hfits : FragmentsFit .standard mixedListing := by
    rw [fragmentsFit_iff]
    simp only [fragmentsOf, fragments_eq_insertionSort]
    decide +kernel
  have hresult : aggregate .standard mixedListing = .ok [⟨"a", 8, noon, midnight, false⟩,
      ⟨"b", 0, noon, noon, true⟩, ⟨"c", 7, noon, noon, false⟩] := by
    simp only [aggregate, literals, fragments_eq_insertionSort,
      LogicalEntry.mergeSort_eq_insertionSort]
    decide +kernel
  obtain ⟨hrefused, -, hshown⟩ := aggregate_shows hfits
  have hfree : ∀ base, ¬ Collides .standard mixedListing base := by
    intro base hcollides
    obtain ⟨other, hother⟩ := hrefused.mpr ⟨base, hcollides⟩
    rw [hresult] at hother
    cases hother
  obtain ⟨all, hall, hshows⟩ := hshown hfree
  rw [hresult, Except.ok.injEq] at hall
  exact ⟨hfits, hfree, hall ▸ hshows⟩

end ChunkedFile
