import Mathlib.Data.List.Sort
import ChunkedFile.Listing.Aggregate

/-!
# Fragments of a listing

Fragments stand in the order of their bases, so those of one file are neighbours, and merging
neighbours merges exactly the fragments of each file.
-/

namespace ChunkedFile

/-- The entry is a fragment, with this base and this ordinal. -/
def StoredEntry.IsFragment (pattern : FragmentPattern) (e : StoredEntry) (base : String)
    (ordinal : Nat) : Prop :=
  e.isDir = false ∧ pattern.parse e.name = some (base, ordinal)

instance (pattern : FragmentPattern) (e : StoredEntry) (base : String) (ordinal : Nat) :
    Decidable (e.IsFragment pattern base ordinal) := inferInstanceAs (Decidable (_ ∧ _))

variable {pattern : FragmentPattern} {entries : List StoredEntry} {e : StoredEntry}
  {name base : String}

namespace Fragment

variable {f g h : Fragment}

/-- The order of fragments is that of their bases, refined by their ordinals. -/
theorem before_iff : f.before g = true ↔
    f.base ≤ g.base ∧ (f.base = g.base → f.ordinal ≤ g.ordinal) := by
  simp only [before, Bool.or_eq_true, decide_eq_true_eq, Bool.and_eq_true, beq_iff_eq]
  constructor
  · rintro (hlt | ⟨heq, hle⟩)
    · refine ⟨String.not_lt.mp (String.lt_asymm hlt), fun heq => ?_⟩
      exact absurd heq (String.ne_of_lt hlt)
    · exact ⟨heq ▸ String.le_refl _, fun _ => hle⟩
  · rintro ⟨hbase, hordinal⟩
    by_cases heq : f.base = g.base
    · exact Or.inr ⟨heq, hordinal heq⟩
    · refine Or.inl (String.not_le.mp fun hge => ?_)
      exact heq (String.le_antisymm hbase hge)

theorem before_trans (f g h : Fragment) (hfg : f.before g = true) (hgh : g.before h = true) :
    f.before h = true := by
  rw [before_iff] at hfg hgh ⊢
  refine ⟨String.le_trans hfg.1 hgh.1, fun heq => ?_⟩
  -- where the ends have one base, the fragment between them has it too
  have hmiddle : f.base = g.base := String.le_antisymm hfg.1 (heq ▸ hgh.1)
  exact Nat.le_trans (hfg.2 hmiddle) (hgh.2 (hmiddle ▸ heq))

theorem before_total (f g : Fragment) : (f.before g || g.before f) = true := by
  rw [Bool.or_eq_true, before_iff, before_iff]
  by_cases heq : f.base = g.base
  · rcases Nat.le_total f.ordinal g.ordinal with hle | hle
    · exact Or.inl ⟨heq ▸ String.le_refl _, fun _ => hle⟩
    · exact Or.inr ⟨heq ▸ String.le_refl _, fun _ => hle⟩
  · rcases String.le_total f.base g.base with hle | hle
    · exact Or.inl ⟨hle, fun h => absurd h heq⟩
    · exact Or.inr ⟨hle, fun h => absurd h.symm heq⟩

/-- Fragments that come before each other agree in base and ordinal. -/
theorem before_antisymm (hfg : f.before g = true) (hgf : g.before f = true) :
    f.base = g.base ∧ f.ordinal = g.ordinal := by
  rw [before_iff] at hfg hgf
  have hbase := String.le_antisymm hfg.1 hgf.1
  exact ⟨hbase, Nat.le_antisymm (hfg.2 hbase) (hgf.2 hbase.symm)⟩

/-- An entry gives the fragment of its own base and ordinal. -/
theorem ofEntry?_eq_some_iff : ofEntry? pattern e = some f ↔
    f.entry = e ∧ e.IsFragment pattern f.base f.ordinal := by
  obtain ⟨base, ordinal, entry⟩ := f
  unfold ofEntry? StoredEntry.IsFragment
  by_cases hdir : e.isDir = true
  · simp [hdir]
  · rw [if_neg hdir]
    cases pattern.parse e.name with
    | none => simp
    | some parsed =>
      obtain ⟨base', ordinal'⟩ := parsed
      simp only [Option.map_some, Option.some.injEq, Fragment.mk.injEq, Prod.mk.injEq, hdir,
        true_and]
      constructor
      · rintro ⟨rfl, rfl, rfl⟩
        exact ⟨rfl, rfl, rfl⟩
      · rintro ⟨rfl, rfl, rfl⟩
        exact ⟨rfl, rfl, rfl⟩

end Fragment

/-- Sorting leaves things that the order does not tell apart as they stand. -/
theorem filter_mergeSort_of_tied {α : Type} {le : α → α → Bool} {kept : α → Bool}
    (htrans : ∀ a b c, le a b = true → le b c = true → le a c = true)
    (htotal : ∀ a b, (le a b || le b a) = true)
    (htied : ∀ a b, kept a = true → kept b = true → le a b = true) (items : List α) :
    (items.mergeSort le).filter kept = items.filter kept := by
  have hsorted : (items.filter kept).Pairwise fun a b => le a b = true :=
    List.pairwise_of_forall_mem_list fun a ha b hb =>
      htied a b (List.mem_filter.mp ha).2 (List.mem_filter.mp hb).2
  have hsub := (List.sublist_mergeSort htrans htotal hsorted List.filter_sublist).filter kept
  simp only [List.filter_filter, Bool.and_self] at hsub
  exact (hsub.eq_of_length (((List.mergeSort_perm items le).filter kept).length_eq).symm).symm

/-- A thing is inserted behind those that it must not precede, where it may precede all others. -/
theorem orderedInsert_append {α : Type} {le : α → α → Bool} {a : α} {front back : List α}
    (hfront : ∀ b ∈ front, (!le a b) = true) (hback : ∀ b ∈ back, le a b = true) :
    (front ++ back).orderedInsert (fun a b => le a b = true) a = front ++ a :: back := by
  have hpassed : ∀ b ∈ front, decide (¬ le a b = true) = true := by simpa using hfront
  rw [List.orderedInsert_eq_take_drop, List.takeWhile_append_of_pos hpassed,
    List.dropWhile_append_of_pos hpassed]
  cases back with
  | nil => rw [List.takeWhile_nil, List.dropWhile_nil, List.append_nil]
  | cons b back => simp [hback b List.mem_cons_self]

/-- Sorting by merging and by insertion both leave things that the order does not tell apart as they
stand, so they agree. -/
theorem mergeSort_eq_insertionSort {α : Type} {le : α → α → Bool}
    (htrans : ∀ a b c, le a b = true → le b c = true → le a c = true)
    (htotal : ∀ a b, (le a b || le b a) = true) (items : List α) :
    items.mergeSort le = items.insertionSort fun a b => le a b = true := by
  induction items with
  | nil => rw [List.mergeSort_nil, List.insertionSort_nil]
  | cons a rest ih =>
    obtain ⟨front, back, hsorted, hrest, hfront⟩ := List.mergeSort_cons htrans htotal a rest
    have hpairwise := List.pairwise_mergeSort htrans htotal (a :: rest)
    rw [hsorted, List.pairwise_append, List.pairwise_cons] at hpairwise
    obtain ⟨-, ⟨hback, -⟩, -⟩ := hpairwise
    calc (a :: rest).mergeSort le
      _ = front ++ a :: back := hsorted
      _ = (front ++ back).orderedInsert (fun a b => le a b = true) a :=
          (orderedInsert_append hfront hback).symm
      _ = (a :: rest).insertionSort fun a b => le a b = true := by
          rw [List.insertionSort_cons, ← ih, hrest]

/-- The fragments of a listing can be sorted by insertion instead. -/
theorem fragments_eq_insertionSort (pattern : FragmentPattern) (entries : List StoredEntry) :
    fragments pattern entries = (entries.filterMap (Fragment.ofEntry? pattern)).insertionSort
      fun f g => f.before g = true :=
  mergeSort_eq_insertionSort Fragment.before_trans Fragment.before_total _

/-- Fragments stand in their order. -/
theorem fragments_pairwise (pattern : FragmentPattern) (entries : List StoredEntry) :
    (fragments pattern entries).Pairwise fun f g => f.before g = true :=
  List.pairwise_mergeSort Fragment.before_trans Fragment.before_total _

/-- Fragments have ascending bases. -/
theorem fragments_pairwise_base (pattern : FragmentPattern) (entries : List StoredEntry) :
    (fragments pattern entries).Pairwise fun f g => f.base ≤ g.base :=
  (fragments_pairwise pattern entries).imp fun h => (Fragment.before_iff.mp h).1

/-- The fragments of a listing are those of its entries. -/
theorem mem_fragments_iff {f : Fragment} : f ∈ fragments pattern entries ↔
    f.entry ∈ entries ∧ f.entry.IsFragment pattern f.base f.ordinal := by
  rw [fragments, List.mem_mergeSort, List.mem_filterMap]
  simp only [Fragment.ofEntry?_eq_some_iff]
  constructor
  · rintro ⟨_, hmem, rfl, hfragment⟩
    exact ⟨hmem, hfragment⟩
  · rintro ⟨hmem, hfragment⟩
    exact ⟨f.entry, hmem, rfl, hfragment⟩

/-- The fragments of a file are the entries that parse to its name. -/
theorem mem_fragmentsOf_iff : e ∈ fragmentsOf pattern entries name ↔
    e ∈ entries ∧ ∃ ordinal, e.IsFragment pattern name ordinal := by
  simp only [fragmentsOf, List.mem_map, List.mem_filter, mem_fragments_iff, beq_iff_eq]
  constructor
  · rintro ⟨f, ⟨⟨hmem, hfragment⟩, rfl⟩, rfl⟩
    exact ⟨hmem, f.ordinal, hfragment⟩
  · rintro ⟨hmem, ordinal, hfragment⟩
    exact ⟨⟨name, ordinal, e⟩, ⟨⟨hmem, hfragment⟩, rfl⟩, rfl⟩

/-- The first entry of a merge is that of the first fragment's file. -/
theorem mergeFragments_cons (f : Fragment) (fs : List Fragment) :
    ∃ first merged, mergeFragments (f :: fs) = first :: merged ∧ first.name = f.base := by
  rw [mergeFragments]
  cases mergeFragments fs with
  | nil => exact ⟨_, _, rfl, rfl⟩
  | cons first merged =>
    by_cases hsame : first.name = f.base
    · exact ⟨_, _, if_pos hsame, rfl⟩
    · exact ⟨_, _, if_neg hsame, rfl⟩

/-- Every merged entry is a file of which there is some fragment. -/
theorem of_mem_mergeFragments {fs : List Fragment} {shown : LogicalEntry}
    (h : shown ∈ mergeFragments fs) : shown.isFolder = false ∧ ∃ f ∈ fs, f.base = shown.name := by
  induction fs generalizing shown with
  | nil => cases h
  | cons f fs ih =>
    have hrest : ∀ later ∈ mergeFragments fs,
        later.isFolder = false ∧ ∃ g ∈ f :: fs, g.base = later.name := by
      intro later hlater
      obtain ⟨hfile, g, hg, hbase⟩ := ih hlater
      exact ⟨hfile, g, List.mem_cons_of_mem f hg, hbase⟩
    rw [mergeFragments] at h
    cases hmerged : mergeFragments fs with
    | nil =>
      simp only [hmerged, List.mem_singleton] at h
      rw [h]
      exact ⟨rfl, f, List.mem_cons_self, rfl⟩
    | cons first merged =>
      rw [hmerged] at hrest
      by_cases hsame : first.name = f.base
      · simp only [hmerged, if_pos hsame, List.mem_cons] at h
        rcases h with rfl | h
        · exact ⟨rfl, f, List.mem_cons_self, rfl⟩
        · exact hrest shown (List.mem_cons_of_mem first h)
      · simp only [hmerged, if_neg hsame, List.mem_cons] at h
        rcases h with rfl | h
        · exact ⟨rfl, f, List.mem_cons_self, rfl⟩
        · exact hrest shown (List.mem_cons.mpr h)

/-- Where the first file of the rest is another one, the rest has no fragment of this one. -/
theorem base_ne_of_first {f : Fragment} {fs : List Fragment} {first : LogicalEntry}
    {merged : List LogicalEntry} (hsorted : (f :: fs).Pairwise fun f g => f.base ≤ g.base)
    (hmerged : mergeFragments fs = first :: merged) (hfirst : first.name ≠ f.base) :
    ∀ g ∈ fs, g.base ≠ f.base := by
  cases fs with
  | nil => cases hmerged
  | cons next rest =>
    obtain ⟨_, _, heq, hname⟩ := mergeFragments_cons next rest
    rw [heq, List.cons.injEq] at hmerged
    rw [← hmerged.1, hname] at hfirst
    obtain ⟨hle, hrest⟩ := List.pairwise_cons.mp hsorted
    intro g hg hbase
    -- the next fragment lies between two of this file
    refine hfirst (String.le_antisymm ?_ (hle next List.mem_cons_self))
    rcases List.mem_cons.mp hg with rfl | hg
    · exact hbase ▸ String.le_refl _
    · rw [← hbase]
      exact (List.pairwise_cons.mp hrest).1 g hg

/-- Merged entries have different names. -/
theorem mergeFragments_pairwise {fs : List Fragment}
    (hsorted : fs.Pairwise fun f g => f.base ≤ g.base) :
    (mergeFragments fs).Pairwise fun a b => a.name ≠ b.name := by
  induction fs with
  | nil => exact .nil
  | cons f fs ih =>
    have hrest := ih hsorted.tail
    rw [mergeFragments]
    cases hmerged : mergeFragments fs with
    | nil => simp
    | cons first merged =>
      rw [hmerged] at hrest
      by_cases hsame : first.name = f.base
      · simp only [if_pos hsame]
        obtain ⟨hne, htail⟩ := List.pairwise_cons.mp hrest
        refine List.pairwise_cons.mpr ⟨fun later hlater => ?_, htail⟩
        have hname := hne later hlater
        rw [hsame] at hname
        exact hname
      · simp only [if_neg hsame]
        refine List.pairwise_cons.mpr ⟨fun later hlater hname => ?_, hrest⟩
        rw [← hmerged] at hlater
        obtain ⟨-, g, hg, hbase⟩ := of_mem_mergeFragments hlater
        exact base_ne_of_first hsorted hmerged hsame g hg (hbase.trans hname.symm)

end ChunkedFile
