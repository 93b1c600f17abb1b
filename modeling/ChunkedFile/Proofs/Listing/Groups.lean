import Mathlib.Algebra.BigOperators.Group.List.Basic
import Mathlib.Data.String.Basic
import Mathlib.Data.UInt
import Mathlib.Order.Bounds.Basic
import ChunkedFile.Proofs.Index.Offsets
import ChunkedFile.Proofs.Listing.Fragments
import ChunkedFile.Proofs.Time.Chronology

/-!
# Files that were cut into fragments

The parts of a file are the entries that parse to its name, as they are listed. Merging a sorted
list of fragments merges each file by itself, so the entry of a file can be read off its parts: it
has the sum of their sizes, the latest of their times of modification and the earliest of their
times of creation.
-/

namespace ChunkedFile

variable {pattern : FragmentPattern} {entries : List StoredEntry} {e : StoredEntry}
  {name base : String}

/-- The entries that are fragments of a file, as they are listed. -/
def partsOf (pattern : FragmentPattern) (entries : List StoredEntry) (base : String) :
    List StoredEntry :=
  entries.filter fun e => !e.isDir && (pattern.parse e.name).any (·.1 == base)

theorem mem_partsOf_iff : e ∈ partsOf pattern entries base ↔
    e ∈ entries ∧ ∃ ordinal, e.IsFragment pattern base ordinal := by
  rw [partsOf, List.mem_filter]
  simp only [Bool.and_eq_true, Bool.not_eq_true', Option.any_eq_true, beq_iff_eq, Prod.exists,
    StoredEntry.IsFragment]
  refine and_congr_right fun _ => ⟨?_, ?_⟩
  · rintro ⟨hfile, base', ordinal, hparse, rfl⟩
    exact ⟨ordinal, hfile, hparse⟩
  · rintro ⟨ordinal, hfile, hparse⟩
    exact ⟨hfile, base, ordinal, hparse, rfl⟩

/-- A file has parts where an entry is a fragment of it. -/
theorem partsOf_ne_nil_iff : partsOf pattern entries base ≠ [] ↔
    ∃ e ∈ entries, ∃ ordinal, e.IsFragment pattern base ordinal := by
  rw [← List.isEmpty_eq_false_iff, List.isEmpty_eq_false_iff_exists_mem]
  simp only [mem_partsOf_iff]

/-- Choosing among fragments by base and ordinal is choosing among the entries that parse to
them. -/
theorem map_entry_filter_parsed (chosen : String → Nat → Bool) :
    ((entries.filterMap (Fragment.ofEntry? pattern)).filter fun f => chosen f.base f.ordinal).map
        Fragment.entry =
      entries.filter fun e =>
        !e.isDir && (pattern.parse e.name).any fun parsed => chosen parsed.1 parsed.2 := by
  rw [List.filter_filterMap, List.map_filterMap, ← List.filterMap_eq_filter]
  refine List.filterMap_congr fun e _ => ?_
  rw [Fragment.ofEntry?, Option.guard]
  cases hdir : e.isDir with
  | true => simp
  | false =>
    cases hparse : pattern.parse e.name with
    | none => simp
    | some parsed =>
      by_cases hchosen : chosen parsed.1 parsed.2 = true <;> simp [Option.filter, hchosen]

/-- The fragments of a file are its parts, in the order of their ordinals. -/
theorem fragmentsOf_perm_partsOf (pattern : FragmentPattern) (entries : List StoredEntry)
    (base : String) : (fragmentsOf pattern entries base).Perm (partsOf pattern entries base) := by
  have hsorted : (fragmentsOf pattern entries base).Perm
      (((entries.filterMap (Fragment.ofEntry? pattern)).filter (·.base == base)).map
        Fragment.entry) := ((List.mergeSort_perm _ _).filter _).map _
  exact hsorted.trans (.of_eq (map_entry_filter_parsed fun parsed _ => parsed == base))

/-- Merging merges each file by itself. -/
theorem filter_mergeFragments {fs : List Fragment}
    (hsorted : fs.Pairwise fun f g => f.base ≤ g.base) (name : String) :
    (mergeFragments fs).filter (·.name == name) =
      mergeFragments (fs.filter (·.base == name)) := by
  induction fs with
  | nil => rfl
  | cons f fs ih =>
    have hrest := ih hsorted.tail
    rw [mergeFragments]
    by_cases hname : f.base = name
    · rw [List.filter_cons_of_pos (by simpa using hname), mergeFragments, ← hrest]
      cases hmerged : mergeFragments fs with
      | nil => simp [LogicalEntry.ofFragment, hname]
      | cons first merged =>
        by_cases hsame : first.name = f.base
        · simp [hsame, hname, LogicalEntry.merge, LogicalEntry.ofFragment]
        · -- no later fragment is one of this file
          have hothers : fs.filter (·.base == name) = [] := by
            rw [List.filter_eq_nil_iff]
            intro g hg
            simpa [hname] using base_ne_of_first hsorted hmerged hsame g hg
          have hnone : (first :: merged).filter (·.name == name) = [] := by
            rw [← hmerged, hrest, hothers, mergeFragments]
          simp only [if_neg hsame]
          rw [List.filter_cons_of_pos (by simpa [LogicalEntry.ofFragment] using hname), hnone]
    · rw [List.filter_cons_of_neg (by simpa using hname), ← hrest]
      cases hmerged : mergeFragments fs with
      | nil => simp [LogicalEntry.ofFragment, hname]
      | cons first merged =>
        by_cases hsame : first.name = f.base
        · simp [hsame, hname, LogicalEntry.merge, LogicalEntry.ofFragment]
        · simp [hsame, hname, LogicalEntry.ofFragment]

/-- What fragments of one file come to: their sizes are added as words. -/
structure LogicalEntry.Merges (shown : LogicalEntry) (parts : List StoredEntry) : Prop where
  isFolder : shown.isFolder = false
  size : shown.size = (parts.map StoredEntry.size).sum
  modified : IsGreatest {t | ∃ e ∈ parts, e.modified = t} shown.modified
  created : IsLeast {t | ∃ e ∈ parts, e.created = t} shown.created

/-- A single fragment is merged as it is. -/
theorem LogicalEntry.merges_ofFragment (f : Fragment) :
    (LogicalEntry.ofFragment f).Merges [f.entry] := by
  refine ⟨rfl, ?_, ?_, ?_⟩
  · simp [LogicalEntry.ofFragment]
  · simp [LogicalEntry.ofFragment]
  · simp [LogicalEntry.ofFragment]

/-- Another fragment adds its size and its times. -/
theorem LogicalEntry.Merges.cons {shown : LogicalEntry} {parts : List StoredEntry}
    (h : shown.Merges parts) (f : Fragment) :
    ((LogicalEntry.ofFragment f).merge shown).Merges (f.entry :: parts) := by
  have hset : ∀ time : StoredEntry → Instant, {t | ∃ e ∈ f.entry :: parts, time e = t} =
      insert (time f.entry) {t | ∃ e ∈ parts, time e = t} := by
    intro time
    ext t
    simp [eq_comm]
  refine ⟨rfl, ?_, ?_, ?_⟩
  · rw [List.map_cons, List.sum_cons, ← h.size]
    rfl
  · rw [hset]
    simp only [merge, ofFragment, Instant.latest_eq_max]
    exact h.modified.insert _
  · rw [hset]
    simp only [merge, ofFragment, Instant.earliest_eq_min]
    exact h.created.insert _

/-- Fragments of one file are merged into one entry. -/
theorem mergeFragments_eq_singleton {f : Fragment} {fs : List Fragment}
    (hsame : ∀ g ∈ f :: fs, g.base = name) :
    ∃ shown : LogicalEntry, mergeFragments (f :: fs) = [shown] ∧ shown.name = name ∧
      shown.Merges ((f :: fs).map Fragment.entry) := by
  induction fs generalizing f with
  | nil => exact ⟨_, rfl, hsame f List.mem_cons_self, LogicalEntry.merges_ofFragment f⟩
  | cons g fs ih =>
    obtain ⟨shown, hmerged, hname, hmerges⟩ := ih fun g hg => hsame g (List.mem_cons_of_mem f hg)
    have hbase := hsame f List.mem_cons_self
    refine ⟨(LogicalEntry.ofFragment f).merge shown, ?_, hbase, hmerges.cons f⟩
    rw [mergeFragments, hmerged]
    simp only [hname, hbase, if_true]

/-- The order of the parts does not matter. -/
theorem LogicalEntry.Merges.perm {shown : LogicalEntry} {parts others : List StoredEntry}
    (h : shown.Merges parts) (hperm : parts.Perm others) : shown.Merges others := by
  have hset : ∀ time : StoredEntry → Instant,
      {t | ∃ e ∈ parts, time e = t} = {t | ∃ e ∈ others, time e = t} := by
    intro time
    ext t
    exact exists_congr fun e => and_congr_left fun _ => hperm.mem_iff
  refine ⟨h.isFolder, ?_, ?_, ?_⟩
  · rw [h.size]
    exact (hperm.map _).sum_eq
  · rw [← hset]
    exact h.modified
  · rw [← hset]
    exact h.created

/-- A file with parts has one merged entry. -/
theorem exists_filter_mergeFragments (h : partsOf pattern entries base ≠ []) :
    ∃ shown : LogicalEntry,
      (mergeFragments (fragments pattern entries)).filter (·.name == base) = [shown] ∧
        shown.name = base ∧ shown.Merges (partsOf pattern entries base) := by
  have hperm := fragmentsOf_perm_partsOf pattern entries base
  rw [filter_mergeFragments (fragments_pairwise_base pattern entries)]
  cases hfound : (fragments pattern entries).filter (·.base == base) with
  | nil =>
    rw [fragmentsOf, hfound] at hperm
    exact absurd hperm.nil_eq.symm h
  | cons f fs =>
    have hsame : ∀ g ∈ f :: fs, g.base = base := by
      intro g hg
      rw [← hfound, List.mem_filter, beq_iff_eq] at hg
      exact hg.2
    obtain ⟨shown, hmerged, hname, hmerges⟩ := mergeFragments_eq_singleton hsame
    rw [← hfound] at hmerges
    exact ⟨shown, hmerged, hname, hmerges.perm hperm⟩

/-- A merged file has parts. -/
theorem partsOf_ne_nil_of_mem_mergeFragments {shown : LogicalEntry}
    (h : shown ∈ mergeFragments (fragments pattern entries)) :
    partsOf pattern entries shown.name ≠ [] := by
  obtain ⟨-, f, hf, hbase⟩ := of_mem_mergeFragments h
  obtain ⟨hentry, hfragment⟩ := mem_fragments_iff.mp hf
  exact partsOf_ne_nil_iff.mpr ⟨f.entry, hentry, f.ordinal, hbase ▸ hfragment⟩

/-- Nothing is merged for a name without fragments. -/
theorem filter_mergeFragments_eq_nil (h : partsOf pattern entries name = []) :
    (mergeFragments (fragments pattern entries)).filter (·.name == name) = [] := by
  rw [List.filter_eq_nil_iff]
  intro shown hshown hname
  rw [beq_iff_eq] at hname
  apply partsOf_ne_nil_of_mem_mergeFragments hshown
  rw [hname, h]

/-- The sizes of each file's fragments have a sum. -/
def FragmentsFit (pattern : FragmentPattern) (entries : List StoredEntry) : Prop :=
  ∀ base, ((fragmentsOf pattern entries base).map fun e => e.size.toNat).sum ≤ Size.limit

/-- Only the bases of fragments have to be looked at. -/
theorem fragmentsFit_iff : FragmentsFit pattern entries ↔
    ((fragments pattern entries).all fun f =>
      ((fragmentsOf pattern entries f.base).map fun e => e.size.toNat).sum ≤ Size.limit) := by
  simp only [List.all_eq_true, decide_eq_true_eq]
  constructor
  · intro h f _
    exact h f.base
  · intro h base
    cases hfound : fragmentsOf pattern entries base with
    | nil => exact Nat.zero_le _
    | cons e rest =>
      have hmem : e ∈ fragmentsOf pattern entries base := hfound ▸ List.mem_cons_self
      obtain ⟨he, ordinal, hfragment⟩ := mem_fragmentsOf_iff.mp hmem
      rw [← hfound]
      exact h ⟨base, ordinal, e⟩ (mem_fragments_iff.mpr ⟨he, hfragment⟩)

instance : Decidable (FragmentsFit pattern entries) := decidable_of_iff' _ fragmentsFit_iff

/-- Sizes that fit do so in the order of the listing too. -/
theorem FragmentsFit.partsOf (h : FragmentsFit pattern entries) (base : String) :
    ((partsOf pattern entries base).map fun e => e.size.toNat).sum ≤ Size.limit := by
  rw [← ((fragmentsOf_perm_partsOf pattern entries base).map _).sum_eq]
  exact h base

/-- Where the sizes of the parts have a sum, the merged entry has it. -/
theorem LogicalEntry.Merges.toNat_size {shown : LogicalEntry} {parts : List StoredEntry}
    (h : shown.Merges parts) (hfits : (parts.map fun e => e.size.toNat).sum ≤ Size.limit) :
    shown.size.toNat = (parts.map fun e => e.size.toNat).sum := by
  have hexact : (parts.map StoredEntry.size).map UInt64.toNat =
      parts.map fun e => e.size.toNat := List.map_map
  rw [← hexact] at hfits ⊢
  rw [h.size, Size.toNat_sum hfits]

/-- A merged entry has the exact sum of its fragments' sizes. -/
theorem toNat_size_of_mem_mergeFragments {shown : LogicalEntry}
    (hfits : FragmentsFit pattern entries)
    (h : shown ∈ mergeFragments (fragments pattern entries)) :
    shown.size.toNat =
      ((fragmentsOf pattern entries shown.name).map fun e => e.size.toNat).sum := by
  obtain ⟨merged, hfilter, -, hmerges⟩ :=
    exists_filter_mergeFragments (partsOf_ne_nil_of_mem_mergeFragments h)
  have hmem : shown ∈ [merged] := by
    rw [← hfilter, List.mem_filter]
    exact ⟨h, beq_self_eq_true _⟩
  rw [List.mem_singleton.mp hmem] at hmerges ⊢
  exact (hmerges.perm (fragmentsOf_perm_partsOf ..).symm).toNat_size (hfits _)

end ChunkedFile
