import ChunkedFile.Proofs.Index.Uniform
import ChunkedFile.Proofs.Listing.Planning
import ChunkedFile.Proofs.Plan.Addresses
import ChunkedFile.Proofs.Plan.Resolved

/-!
# Layouts of one file

The parts of a file that was cut uniformly and the entries of a listing can be written down as
chunks instead, and are then resolved to the same plan. Parts get their sizes and their addresses
apart from each other, and the directory of a listing is placed before names are joined to it;
neither shows in the plan.
-/

namespace ChunkedFile

variable {config : Config} {parts : List String} {size : UInt64} {plan : Plan}
  {directory name stem : String} {entries : List StoredEntry}

/-- The parts of a file written down as chunks: each has the size of a part, but the last has what
the others leave. -/
def partRefs (parts : List String) (size part : UInt64) : List ChunkRef :=
  parts.mapIdx fun i path => ⟨path, if i + 1 < parts.length then part
    else UInt64.ofNat (size.toNat - part.toNat * (parts.length - 1))⟩

/-- Of as many parts as there are sizes, each has its size. -/
theorem zipWith_uniformSizes {part : UInt64} (hpart : part ≠ 0)
    (hlength : parts.length = size.toNat ⌈/⌉ part.toNat) (place : String → String) :
    List.zipWith ChunkRef.mk (parts.map place) (Index.uniformSizes size part) =
      (partRefs parts size part).map fun c => { c with address := place c.address } := by
  have hsizes : (Index.uniformSizes size part).length = parts.length :=
    (Index.length_uniformSizes hpart).trans hlength.symm
  apply List.ext_getElem
  · simp only [List.length_zipWith, List.length_map, partRefs, List.length_mapIdx]
    omega
  · intro i hi hi'
    rw [List.length_map, partRefs, List.length_mapIdx] at hi'
    simp only [List.getElem_zipWith, List.getElem_map, partRefs, List.getElem_mapIdx,
      Index.getElem_uniformSizes hpart, ← hlength]
    split
    · rfl
    · have hlast : parts.length - 1 = i := by omega
      simp only [hlast]

namespace Config

/-- Parts are resolved where there are as many as the size needs and not too many, and then as the
chunks that they are. -/
theorem resolveLayout_uniform_eq_ok_iff (hpart : config.partSize ≠ 0) :
    config.resolveLayout (.uniform parts size) = .ok plan ↔
      parts.length = size.toNat ⌈/⌉ config.partSize.toNat ∧ parts.length ≤ partLimit ∧
        config.resolveLayout (.chunks (partRefs parts size config.partSize)) = .ok plan := by
  unfold resolveLayout
  rw [bind_eq_ok_iff]
  constructor
  · rintro ⟨needed, hneeded, hplan⟩
    obtain ⟨hlimit, rfl⟩ := (Index.uniformCount?_eq_ok_iff hpart).mp hneeded
    split at hplan
    · cases hplan
    rename_i hlength
    rw [ne_eq, not_not] at hlength
    obtain ⟨-, -, rfl⟩ := Plan.ofSizes_eq_ok_iff.mp hplan
    rw [zipWith_uniformSizes hpart hlength.symm, ← hlength]
    exact ⟨rfl, hlimit, rfl⟩
  · rintro ⟨hlength, hlimit, hplan⟩
    cases hplan
    rw [hlength] at hlimit
    refine ⟨_, (Index.uniformCount?_eq_ok_iff hpart).mpr ⟨hlimit, rfl⟩, ?_⟩
    rw [if_neg (not_not.mpr hlength.symm), Plan.ofSizes_eq_ok_iff,
      zipWith_uniformSizes hpart hlength, List.length_map, Index.length_uniformSizes hpart,
      Index.sum_uniformSizes]
    exact ⟨hlength, Size.toNat_le_limit size, rfl⟩

/-- The plan of the parts of a file has the size of the file. -/
theorem exactSize_of_uniform (hpart : config.partSize ≠ 0)
    (h : config.resolveLayout (.uniform parts size) = .ok plan) : plan.exactSize = size.toNat := by
  obtain ⟨hlength, -, hplan⟩ := (resolveLayout_uniform_eq_ok_iff hpart).mp h
  cases hplan
  rw [← zipWith_uniformSizes hpart hlength, Plan.exactSize_zipWith, Index.sum_uniformSizes]
  rw [List.length_map, Index.length_uniformSizes hpart, hlength]

/-- A listing is resolved as the chunks that the entries of the plan are, with their names joined to
the directory. -/
theorem resolveLayout_listing (hstem : Text.Stems directory stem)
    (hnames : ∀ e ∈ entries, e.name ≠ "" ∧ e.name.toList.head? ≠ some '/')
    (h : config.resolveLayout (.listing directory name entries) = .ok plan) :
    ∃ found : List StoredEntry, (∀ e ∈ found, e ∈ entries) ∧
      plan.chunks = found.map (StoredEntry.toChunk (config.remoteAddress directory)) ∧
        config.resolveLayout (.chunks (found.map fun e => ⟨stem ++ "/" ++ e.name, e.size⟩)) =
          .ok plan := by
  rw [resolveLayout, bind_eq_ok_iff] at h
  obtain ⟨pattern, -, h⟩ := h
  obtain ⟨result, hresult, h⟩ := bind_eq_ok_iff.mp h
  cases result with
  | none => cases h
  | some plan =>
    cases h
    obtain ⟨found, hfound, rfl⟩ := of_chunkPlan hresult
    refine ⟨found, hfound, rfl, ?_⟩
    rw [resolveLayout, List.map_map, Except.ok.injEq, Plan.mk.injEq]
    refine ⟨?_, rfl, rfl⟩
    apply List.map_congr_left
    intro e he
    obtain ⟨hne, hfirst⟩ := hnames e (hfound e he)
    simp only [Function.comp_apply, StoredEntry.toChunk,
      joinAddress_remoteAddress config hstem hne hfirst]

/-- The parts of a file have a plan exactly where there are as many as its size needs, not too many,
and a digest that is recorded is well-formed. -/
theorem uniform_resolves_iff (hpart : config.partSize ≠ 0) {digest : Option String}
    {algorithm : Option Algorithm} {proxied : Bool} :
    (∃ plan, config.resolvePlan ⟨.uniform parts size, digest, algorithm, proxied⟩ = .ok plan) ↔
      parts.length = size.toNat ⌈/⌉ config.partSize.toNat ∧ parts.length ≤ partLimit ∧
        ∀ hex, digest = some hex →
          ExpectedDigest.WellFormed ⟨algorithm.getD config.hashAlgorithm, hex⟩ := by
  have hdigest : (∀ expected, config.recordedDigest
        ⟨.uniform parts size, digest, algorithm, proxied⟩ = some expected →
          expected.WellFormed) ↔
      ∀ hex, digest = some hex →
        ExpectedDigest.WellFormed ⟨algorithm.getD config.hashAlgorithm, hex⟩ := by
    simp only [recordedDigest, Option.map_eq_some_iff, forall_exists_index, and_imp,
      forall_apply_eq_imp_iff₂]
  constructor
  · rintro ⟨plan, hplan⟩
    obtain ⟨layout, hlayout, hwell, -, -⟩ := resolvePlan_eq_ok_iff.mp hplan
    obtain ⟨hlength, hlimit, -⟩ := (resolveLayout_uniform_eq_ok_iff hpart).mp hlayout
    exact ⟨hlength, hlimit, hdigest.mp hwell⟩
  · rintro ⟨hlength, hlimit, hwell⟩
    have hlayout := (resolveLayout_uniform_eq_ok_iff hpart).mpr ⟨hlength, hlimit, rfl⟩
    have hfits := (exactSize_of_uniform hpart hlayout).trans_le (Size.toNat_le_limit size)
    exact ⟨_, resolvePlan_eq_ok_iff.mpr ⟨_, hlayout, hdigest.mpr hwell, rfl, hfits⟩⟩

/-- All layouts of a file agree with its chunks. Parts have a plan exactly where there are as many
as the size needs, not too many, and a digest is well-formed; it is that of the parts written down
as chunks. A listing that has a plan has that of its entries written down as chunks, with the
directory without the slashes at its end, a slash and the name for an address. -/
theorem layouts_agree (config : Config) (digest : Option String) (algorithm : Option Algorithm)
    (proxied : Bool) :
    (config.partSize ≠ 0 → ∀ parts size,
      ((∃ plan, config.resolvePlan ⟨.uniform parts size, digest, algorithm, proxied⟩ = .ok plan) ↔
        parts.length = size.toNat ⌈/⌉ config.partSize.toNat ∧ parts.length ≤ partLimit ∧
          ∀ hex, digest = some hex →
            ExpectedDigest.WellFormed ⟨algorithm.getD config.hashAlgorithm, hex⟩) ∧
      ∀ plan, config.resolvePlan ⟨.uniform parts size, digest, algorithm, proxied⟩ = .ok plan →
        config.resolvePlan
          ⟨.chunks (partRefs parts size config.partSize), digest, algorithm, proxied⟩ = .ok plan) ∧
    ∀ directory name entries,
      (∀ e ∈ entries, e.name ≠ "" ∧ e.name.toList.head? ≠ some '/') →
      ∀ plan, config.resolvePlan
          ⟨.listing directory name entries, digest, algorithm, proxied⟩ = .ok plan →
        ∃ (stem : String) (found : List StoredEntry), Text.Stems directory stem ∧
          (∀ e ∈ found, e ∈ entries) ∧
          plan.chunks = found.map (StoredEntry.toChunk (config.remoteAddress directory)) ∧
          config.resolvePlan ⟨.chunks (found.map fun e => ⟨stem ++ "/" ++ e.name, e.size⟩),
            digest, algorithm, proxied⟩ = .ok plan := by
  refine ⟨fun hpart parts size => ⟨uniform_resolves_iff hpart, fun plan hplan => ?_⟩, ?_⟩
  · obtain ⟨layout, hlayout, hrest⟩ := resolvePlan_eq_ok_iff.mp hplan
    obtain ⟨-, -, hchunks⟩ := (resolveLayout_uniform_eq_ok_iff hpart).mp hlayout
    exact resolvePlan_eq_ok_iff.mpr ⟨layout, hchunks, hrest⟩
  · intro directory name entries hnames plan hplan
    have hstem := Text.stems_trimTrailingSlashes directory
    obtain ⟨layout, hlayout, hwell, rfl, hfits⟩ := resolvePlan_eq_ok_iff.mp hplan
    obtain ⟨found, hfound, hchunks, hother⟩ := resolveLayout_listing hstem hnames hlayout
    exact ⟨_, found, hstem, hfound, hchunks,
      resolvePlan_eq_ok_iff.mpr ⟨layout, hother, hwell, rfl, hfits⟩⟩

end Config

/-- The plan of the fragments of a file below a directory, through the proxy. -/
def numberedPlan : Plan where
  chunks := [⟨"/r/d/a.rclone_chunk.2", 5⟩, ⟨"/r/d/a.rclone_chunk.02", 3⟩,
    ⟨"/r/d/a.rclone_chunk.10", 1⟩]
  proxied := true

/-- Two parts are resolved as two chunks, and fragments below a directory with slashes around it as
chunks below its stem. -/
theorem layouts_agree_twoParts :
    Config.resolvePlan {} { twoParts with layout := .chunks [⟨"x", 52428800⟩, ⟨"y", 1⟩] } =
        .ok twoPartsPlan ∧
      ∃ (stem : String) (found : List StoredEntry), Text.Stems "//d/" stem ∧
        found.map (fun e => e.size) = [5, 3, 1] ∧
        Config.resolvePlan { remotePath := "/r/" }
          ⟨.chunks (found.map fun e => ⟨stem ++ "/" ++ e.name, e.size⟩), none, none, true⟩ =
            .ok numberedPlan := by
  have hparts : Config.resolvePlan {} twoParts = .ok twoPartsPlan := rfl
  have hlisting : Config.resolvePlan { remotePath := "/r/" }
      ⟨.listing "//d/" "a" numberedListing, none, none, true⟩ = .ok numberedPlan := by
    simp only [Config.resolvePlan, Config.resolveLayout, chunkPlan, fragmentsOf,
      fragments_eq_insertionSort]
    decide +kernel
  obtain ⟨huniform, -⟩ := Config.layouts_agree {} twoParts.digest twoParts.algorithm false
  obtain ⟨-, hnames⟩ := Config.layouts_agree { remotePath := "/r/" } none none true
  obtain ⟨-, hchunks⟩ := huniform (by decide) ["x", "y"] 52428801
  obtain ⟨stem, found, hstem, -, hfound, hplan⟩ :=
    hnames "//d/" "a" numberedListing (by decide) numberedPlan hlisting
  have hsizes := congrArg (List.map ChunkRef.size) hfound
  rw [List.map_map] at hsizes
  exact ⟨hchunks twoPartsPlan hparts, stem, found, hstem, hsizes.symm, hplan⟩

end ChunkedFile
