import ChunkedFile.Config
import ChunkedFile.Listing.Aggregate
import ChunkedFile.Proofs.Text.Slashes

/-!
# Addresses below the configured directory

A path is placed below the configured directory without the slashes at its start, and the name of an
entry below an address without the slashes at its end. So a name can be joined to a directory before
or after the directory is placed: the addresses are the same, however many slashes stand between.
-/

namespace ChunkedFile

open Text

variable {config : Config} {base path rest directory stem name : String}

/-- The address of an entry is the stem of the directory's address, a slash and the name. -/
theorem joinAddress_eq (h : Stems directory stem) (name : String) :
    joinAddress directory name = stem ++ "/" ++ name := by
  rw [joinAddress, h.trimTrailingSlashes_eq]

namespace Config

/-- Slashes only are the address of the configured directory, which is a slash where it is
the root. -/
theorem remoteAddress_slashes (hbase : Stems config.remotePath base) (count : Nat) :
    config.remoteAddress (slashes count) = if base = "" then "/" else base := by
  rw [remoteAddress, hbase.trimTrailingSlashes_eq, (roots_slashes count).trimLeadingSlashes_eq]
  rfl

/-- The address of any other path is the stem of the configured directory, a slash and the rest of
the path. -/
theorem remoteAddress_eq (hbase : Stems config.remotePath base) (hrest : Roots path rest)
    (hne : rest ≠ "") : config.remoteAddress path = base ++ "/" ++ rest := by
  rw [remoteAddress, hbase.trimTrailingSlashes_eq, hrest.trimLeadingSlashes_eq]
  exact if_neg hne

/-- The configured directory itself has its stem as that of its address. -/
theorem stems_remoteAddress_slashes (hbase : Stems config.remotePath base) (count : Nat) :
    Stems (config.remoteAddress (slashes count)) base := by
  rw [remoteAddress_slashes hbase]
  split
  · rename_i hroot
    rw [hroot]
    exact stems_slashes 1
  · exact ⟨⟨0, String.append_empty.symm⟩, hbase.last⟩

/-- Joining a name to the address of a directory is placing the joined path. -/
theorem joinAddress_remoteAddress (config : Config) (hstem : Stems directory stem)
    (hname : name ≠ "") (hfirst : name.toList.head? ≠ some '/') :
    joinAddress (config.remoteAddress directory) name =
      config.remoteAddress (stem ++ "/" ++ name) := by
  obtain ⟨base, hbase⟩ : ∃ base, Stems config.remotePath base :=
    ⟨_, stems_trimTrailingSlashes config.remotePath⟩
  obtain ⟨⟨count, rfl⟩, -⟩ := id hstem
  by_cases hne : stem = ""
  · -- the directory is slashes only, and so is what stands before the name in the joined path
    have hjoined : Roots (stem ++ "/" ++ name) name := by
      rw [hne]
      exact ⟨⟨1, rfl⟩, hfirst⟩
    rw [remoteAddress_eq hbase hjoined hname, hne, String.empty_append,
      joinAddress_eq (stems_remoteAddress_slashes hbase count)]
  · have hcore := roots_trimLeadingSlashes stem
    obtain ⟨hsome, hlast⟩ := hstem.rest_ne_empty hne hcore
    generalize trimLeadingSlashes stem = core at hcore hsome hlast
    have hstems : Stems (core ++ slashes count) core := ⟨⟨count, rfl⟩, hlast⟩
    have hplaced : config.remoteAddress (stem ++ slashes count) =
        base ++ "/" ++ (core ++ slashes count) :=
      remoteAddress_eq hbase (hcore.append hsome _) (by simp [hsome])
    have hjoined : config.remoteAddress (stem ++ ("/" ++ name)) =
        base ++ "/" ++ (core ++ ("/" ++ name)) :=
      remoteAddress_eq hbase (hcore.append hsome _) (by simp [hsome])
    rw [hplaced, joinAddress_eq (hstems.append hsome (base ++ "/"))]
    simp only [String.append_assoc] at hjoined ⊢
    exact hjoined.symm

end Config

/-- The address is the base with nothing behind it, or with a slash and what may follow. -/
def Below (base address : String) : Prop :=
  ∃ rest, address = base ++ rest ∧ (rest = "" ∨ rest.toList.head? = some '/')

/-- An address lies below itself. -/
theorem below_refl (base : String) : Below base base := ⟨"", String.append_empty.symm, Or.inl rfl⟩

/-- A slash and a name lead further below the base. -/
theorem Below.slash {address : String} (h : Below base address) (name : String) :
    Below base (address ++ "/" ++ name) := by
  obtain ⟨rest, rfl, hrest⟩ := h
  refine ⟨rest ++ "/" ++ name, by simp only [String.append_assoc], Or.inr ?_⟩
  rcases hrest with rfl | hfirst
  · rw [String.empty_append, String.toList_append]
    rfl
  · have hne : rest.toList ≠ [] := by
      intro hnil
      rw [hnil] at hfirst
      cases hfirst
    rw [String.append_assoc, String.toList_append, List.head?_append_of_ne_nil _ hne]
    exact hfirst

/-- Without the slashes at its end an address stays below a base that does not end in one. -/
theorem Below.of_stems {address : String} (h : Below base address)
    (hlast : base.toList.getLast? ≠ some '/') (hstem : Stems address stem) : Below base stem := by
  obtain ⟨rest, rfl, hrest⟩ := h
  obtain ⟨⟨count, heq⟩, -⟩ := hstem
  rw [← String.toList_inj, String.toList_append, String.toList_append, toList_slashes] at heq
  rcases List.append_eq_append_iff.mp heq with ⟨middle, hstem, hmiddle⟩ | ⟨middle, hbase, hmiddle⟩
  · -- the slashes are all behind the base
    refine ⟨String.ofList middle, ?_, ?_⟩
    · rw [← String.toList_inj, String.toList_append, String.toList_ofList, hstem]
    · by_cases hnil : middle = []
      · exact Or.inl (congrArg String.ofList hnil)
      · rw [← String.toList_eq_nil_iff, hmiddle, List.head?_append_of_ne_nil _ hnil] at hrest
        rw [String.toList_ofList]
        exact Or.inr (hrest.resolve_left (List.append_ne_nil_of_left_ne_nil hnil _))
  · -- no slash is left for the base to end in
    have hnil : middle = [] := by
      by_contra hne
      have hend := List.getLast_mem hne
      have hslash : middle.getLast hne = '/' :=
        List.eq_of_mem_replicate (hmiddle ▸ List.mem_append_left rest.toList hend)
      rw [hbase, List.getLast?_append_of_ne_nil _ hne, List.getLast?_eq_some_getLast hne,
        hslash] at hlast
      exact hlast rfl
    rw [hnil, List.append_nil, String.toList_inj] at hbase
    rw [hbase]
    exact below_refl stem

/-- The name of an entry is joined below the base. -/
theorem Below.joinAddress {address : String} (h : Below base address)
    (hlast : base.toList.getLast? ≠ some '/') (name : String) :
    Below base (joinAddress address name) :=
  (h.of_stems hlast (stems_trimTrailingSlashes address)).slash name

/-- An address below a base begins with a slash where the base does, or is empty. -/
theorem Below.head?_eq {address : String} (h : Below base address) (hne : address ≠ "")
    (hbase : base ≠ "" → base.toList.head? = some '/') : address.toList.head? = some '/' := by
  obtain ⟨rest, rfl, hrest⟩ := h
  by_cases hempty : base = ""
  · rw [hempty, String.empty_append] at hne ⊢
    exact hrest.resolve_left hne
  · rw [String.toList_append, List.head?_append_of_ne_nil _ (by simpa using hempty)]
    exact hbase hempty

/-- The address of a path lies below the configured directory. -/
theorem Config.below_remoteAddress (hbase : Stems config.remotePath base) (path : String) :
    Below base (config.remoteAddress path) := by
  have hrest := roots_trimLeadingSlashes path
  by_cases hne : trimLeadingSlashes path = ""
  · obtain ⟨⟨count, hpath⟩, -⟩ := hrest
    rw [hne, String.append_empty] at hpath
    rw [hpath, remoteAddress_slashes hbase]
    split
    · rename_i hroot
      rw [hroot]
      exact (below_refl "").slash ""
    · exact below_refl base
  · rw [remoteAddress_eq hbase hrest hne]
    exact (below_refl base).slash _

end ChunkedFile
