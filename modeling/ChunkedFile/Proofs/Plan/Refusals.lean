import ChunkedFile.Proofs.Plan.Layouts

/-!
# Why a source has no plan

A valid configuration has a pattern of fragments and parts with a size, so a source is never refused
for the configuration: only for a digest of the wrong form, for a name that stands for fragments and
for a file, or for a text that does not describe a file. A plan that it has lies below the
configured directory.
-/

namespace ChunkedFile

variable {config : Config} {source : PlanSource} {layout : Layout} {plan : Plan} {error : Error}

namespace Plan

/-- A plan is refused as a text that cannot be read. -/
theorem error_of_validate (h : plan.validate = .error error) : ∃ fault, error = .parse fault := by
  have hlarge : ¬ plan.Fits := by
    intro hfits
    rw [validate_eq_ok_iff.mpr ⟨hfits, rfl⟩] at h
    cases h
  obtain ⟨-, chunk, -, -, -, -, herror⟩ := error_of_not_fits hlarge
  rw [herror, Except.error.injEq] at h
  exact ⟨_, h.symm⟩

/-- Addresses and sizes are refused as a text that cannot be read. -/
theorem error_of_ofSizes {addresses : List String} {sizes : List UInt64}
    (h : ofSizes addresses sizes = .error error) : ∃ fault, error = .parse fault := by
  rw [ofSizes] at h
  split at h
  · cases h
    exact ⟨_, rfl⟩
  · rcases bind_eq_error_iff.mp h with h | ⟨total, -, h⟩
    · exact error_of_validate h
    · cases h

end Plan

/-- A text that is no digest is refused in the form in which it would be compared. -/
theorem ExpectedDigest.ofHex_eq_error_iff {digest : ExpectedDigest} :
    Verifier.ofHex digest.algorithm digest.hex = .error error ↔ ¬ digest.WellFormed ∧ error =
      .config (.badDigest digest.algorithm (Text.asciiLower (Text.trim digest.hex))) := by
  simp only [Verifier.ofHex, WellFormed]
  split
  · simp [*]
  · simp [*, eq_comm]

namespace Config

/-- The settings can be worked with. -/
structure Valid (config : Config) : Prop where
  apiUrl : "http://".toList <+: config.apiUrl.toList ∨ "https://".toList <+: config.apiUrl.toList
  rooted : config.remotePath.toList.head? = some '/'
  partSize : minPartSize ≤ config.partSize ∧ config.partSize ≤ maxPartSize
  marker : config.fragmentMarker ≠ "" ∧ '/' ∉ config.fragmentMarker.toList
  attempts : config.maxFetchAttempts ≠ 0 ∧ config.maxFetchAttempts ≤ 10
  timeout : config.fetchTimeoutSecs ≠ 0

private theorem slash_prefix_iff {cs : List Char} : ['/'] <+: cs ↔ cs.head? = some '/' := by
  cases cs with
  | nil => simp
  | cons c cs => simp [List.cons_prefix_cons, eq_comm (a := c)]

private theorem ite_some_eq_none {c : Prop} [Decidable c] {fault : ConfigFault}
    {rest : Option ConfigFault} : (if c then some fault else rest) = none ↔ ¬ c ∧ rest = none := by
  split <;> simp [*]

/-- A configuration has no fault exactly where each setting can be worked with. -/
theorem fault?_eq_none_iff : config.fault? = none ↔ config.Valid := by
  simp only [fault?, ite_some_eq_none, Bool.not_eq_true', Bool.not_eq_false, Bool.or_eq_true,
    List.isPrefixOf_iff_prefix, slash_prefix_iff, decide_eq_true_eq, not_or, UInt64.not_lt, and_true]
  constructor
  · rintro ⟨hurl, hroot, hpart, hmarker, hattempts, htimeout⟩
    exact ⟨hurl, hroot, hpart, hmarker, hattempts, htimeout⟩
  · rintro ⟨hurl, hroot, hpart, hmarker, hattempts, htimeout⟩
    exact ⟨hurl, hroot, hpart, hmarker, hattempts, htimeout⟩

/-- The settings that pass the checks are the valid ones. -/
theorem validate_eq_ok_iff : config.validate = .ok () ↔ config.Valid := by
  rw [← fault?_eq_none_iff, validate]
  cases config.fault? <;> simp

/-- The parts of a valid configuration have a size. -/
theorem Valid.partSize_ne (h : config.Valid) : config.partSize ≠ 0 := by
  intro hzero
  have hmin := h.partSize.1
  rw [hzero] at hmin
  exact absurd hmin (by decide)

/-- A valid configuration has a pattern. -/
theorem Valid.exists_pattern (h : config.Valid) :
    ∃ pattern, config.fragmentPattern = .ok pattern := by
  rw [fragmentPattern, FragmentPattern.ofMarker, dif_neg h.marker.1]
  exact ⟨_, rfl⟩

/-- The address begins with a slash, and is the configured directory without the slashes at its end
or lies below it. -/
structure Places (config : Config) (address : String) : Prop where
  rooted : address.toList.head? = some '/'
  below : ∃ base, Text.Stems config.remotePath base ∧ Below base address

/-- What lies below the stem of a valid directory is placed. -/
theorem Valid.places (h : config.Valid) {base address : String}
    (hbase : Text.Stems config.remotePath base) (hbelow : Below base address) (hne : address ≠ "") :
    config.Places address where
  rooted := hbelow.head?_eq hne fun hsome => (hbase.head?_eq hsome).trans h.rooted
  below := ⟨base, hbase, hbelow⟩

/-- The address of a path is placed. -/
theorem Valid.places_remoteAddress (h : config.Valid) (path : String) :
    config.Places (config.remoteAddress path) := by
  have hbase := Text.stems_trimTrailingSlashes config.remotePath
  refine h.places hbase (below_remoteAddress hbase path) ?_
  simp only [remoteAddress]
  split
  · split
    · decide
    · assumption
  · simp

/-- The address of a name in a directory is placed. -/
theorem Valid.places_joinAddress (h : config.Valid) (directory name : String) :
    config.Places (joinAddress (config.remoteAddress directory) name) := by
  have hbase := Text.stems_trimTrailingSlashes config.remotePath
  refine h.places hbase ((below_remoteAddress hbase directory).joinAddress hbase.last name) ?_
  simp [joinAddress]

/-- All chunks of a layout are placed. -/
theorem Valid.places_of_resolveLayout (h : config.Valid)
    (hplan : config.resolveLayout layout = .ok plan) :
    ∀ address ∈ plan.addresses, config.Places address := by
  have hrefs {refs : List ChunkRef} (hplan : config.resolveLayout (.chunks refs) = .ok plan) :
      ∀ address ∈ plan.addresses, config.Places address := by
    cases hplan
    intro address haddress
    simp only [Plan.addresses, List.map_map, List.mem_map, Function.comp_apply] at haddress
    obtain ⟨ref, -, rfl⟩ := haddress
    exact h.places_remoteAddress ref.address
  cases layout with
  | chunks refs => exact hrefs hplan
  | uniform parts size =>
    exact hrefs ((resolveLayout_uniform_eq_ok_iff h.partSize_ne).mp hplan).2.2
  | listing directory name entries =>
    obtain ⟨pattern, -, hfound⟩ := bind_eq_ok_iff.mp hplan
    obtain ⟨result, hresult, hplan⟩ := bind_eq_ok_iff.mp hfound
    cases result with
    | none => cases hplan
    | some plan =>
      cases hplan
      obtain ⟨found, -, rfl⟩ := of_chunkPlan hresult
      intro address haddress
      simp only [Plan.addresses, List.map_map, List.mem_map, Function.comp_apply] at haddress
      obtain ⟨e, -, rfl⟩ := haddress
      exact h.places_joinAddress directory e.name

/-- With the pattern of fragments, a listing is resolved as its plan is found. -/
theorem resolveLayout_of_pattern {pattern : FragmentPattern} {directory name : String}
    {entries : List StoredEntry} (hpattern : config.fragmentPattern = .ok pattern) :
    config.resolveLayout (.listing directory name entries) =
      chunkPlan pattern entries (config.remoteAddress directory) name >>= fun
        | some plan => .ok plan
        | none => .error (.parse (.notListed name directory)) := by
  rw [resolveLayout, hpattern]
  rfl

/-- A layout is refused for a contested name, or as a text. -/
theorem Valid.error_of_resolveLayout (h : config.Valid)
    (hrefused : config.resolveLayout layout = .error error) :
    (∃ directory name entries pattern, layout = .listing directory name entries ∧
      config.fragmentPattern = .ok pattern ∧ Contested pattern entries name ∧
        error = .collision name) ∨ ∃ fault, error = .parse fault := by
  cases layout with
  | chunks refs => cases hrefused
  | uniform parts size =>
    refine Or.inr ?_
    rcases bind_eq_error_iff.mp hrefused with hcount | ⟨needed, -, hrefused⟩
    · rcases Index.uniformCount?_eq_error_iff.mp hcount with ⟨hzero, -⟩ | ⟨-, -, rfl⟩
      · exact absurd hzero h.partSize_ne
      · exact ⟨_, rfl⟩
    · split at hrefused
      · cases hrefused
        exact ⟨_, rfl⟩
      · exact Plan.error_of_ofSizes hrefused
  | listing directory name entries =>
    obtain ⟨pattern, hpattern⟩ := h.exists_pattern
    rw [resolveLayout_of_pattern hpattern] at hrefused
    rcases bind_eq_error_iff.mp hrefused with hplan | ⟨result, -, hrefused⟩
    · obtain rfl := error_of_chunkPlan hplan
      exact Or.inl ⟨directory, name, entries, pattern, rfl, hpattern,
        chunkPlan_eq_collision_iff.mp hplan, rfl⟩
    · cases result with
      | none =>
        cases hrefused
        exact Or.inr ⟨_, rfl⟩
      | some plan => cases hrefused

/-- A contested name is refused whatever else is recorded. -/
theorem resolveLayout_of_contested {pattern : FragmentPattern} {directory name : String}
    {entries : List StoredEntry} (hpattern : config.fragmentPattern = .ok pattern)
    (hcontested : Contested pattern entries name) :
    config.resolveLayout (.listing directory name entries) = .error (.collision name) := by
  rw [resolveLayout_of_pattern hpattern]
  exact bind_eq_error_iff.mpr (Or.inl (chunkPlan_of_contested hcontested))

/-- A source is refused for its digest where it is not well-formed. -/
theorem resolveDigest_eq_error_iff : config.resolveDigest source = .error error ↔
    ∃ digest, config.recordedDigest source = some digest ∧ ¬ digest.WellFormed ∧ error =
      .config (.badDigest digest.algorithm (Text.asciiLower (Text.trim digest.hex))) := by
  rw [resolveDigest, recordedDigest]
  cases source.digest with
  | none => simp
  | some hex =>
    rw [bind_eq_error_iff, Option.map_some]
    simp only [Option.some.injEq, exists_eq_left']
    rw [← ExpectedDigest.ofHex_eq_error_iff]
    simp [pure, Except.pure]

/-- A source is refused for its layout, then for its digest, then for the sum of its sizes. -/
theorem resolvePlan_eq_error_iff : config.resolvePlan source = .error error ↔
    config.resolveLayout source.layout = .error error ∨
      ∃ layout, config.resolveLayout source.layout = .ok layout ∧
        (config.resolveDigest source = .error error ∨
          ∃ digest, config.resolveDigest source = .ok digest ∧
            Plan.validate { layout with digest, proxied := source.proxied || config.mustProxy } =
              .error error) := by
  rw [resolvePlan, bind_eq_error_iff]
  refine or_congr_right (exists_congr fun layout => and_congr_right fun _ => ?_)
  rw [bind_eq_error_iff]
  refine or_congr_right (exists_congr fun digest => and_congr_right fun _ => ?_)
  rw [bind_eq_error_iff]
  simp [pure, Except.pure]

/-- A source is refused for a contested name, for its digest once its layout has a plan, or as a
text. -/
theorem Valid.error_of_resolvePlan (h : config.Valid)
    (hrefused : config.resolvePlan source = .error error) :
    (∃ directory name entries pattern, source.layout = .listing directory name entries ∧
      config.fragmentPattern = .ok pattern ∧ Contested pattern entries name ∧
        error = .collision name) ∨
    (∃ layout digest, config.resolveLayout source.layout = .ok layout ∧
      config.recordedDigest source = some digest ∧ ¬ digest.WellFormed ∧ error =
        .config (.badDigest digest.algorithm (Text.asciiLower (Text.trim digest.hex)))) ∨
    ∃ fault, error = .parse fault := by
  rcases resolvePlan_eq_error_iff.mp hrefused with
    hlayout | ⟨layout, hlayout, hdigest | ⟨digest, -, hsum⟩⟩
  · rcases h.error_of_resolveLayout hlayout with hcontested | hfault
    · exact Or.inl hcontested
    · exact Or.inr (Or.inr hfault)
  · obtain ⟨digest, hrecorded, hwell, herror⟩ := resolveDigest_eq_error_iff.mp hdigest
    exact Or.inr (Or.inl ⟨layout, digest, hlayout, hrecorded, hwell, herror⟩)
  · exact Or.inr (Or.inr (Plan.error_of_validate hsum))

/-- The digest refuses a source exactly where it is no digest of its algorithm and the layout has a
plan. -/
theorem Valid.resolvePlan_eq_config_iff (h : config.Valid) :
    (∃ fault, config.resolvePlan source = .error (.config fault)) ↔
      (∃ plan, config.resolveLayout source.layout = .ok plan) ∧ ∃ hex, source.digest = some hex ∧
        ¬ ExpectedDigest.WellFormed ⟨source.algorithm.getD config.hashAlgorithm, hex⟩ := by
  constructor
  · rintro ⟨fault, hrefused⟩
    rcases h.error_of_resolvePlan hrefused with
      ⟨_, _, _, _, _, _, _, herror⟩ | ⟨layout, digest, hlayout, hrecorded, hwell, -⟩ | ⟨_, herror⟩
    · cases herror
    · obtain ⟨hex, hdigest, rfl⟩ := Option.map_eq_some_iff.mp hrecorded
      exact ⟨⟨layout, hlayout⟩, hex, hdigest, hwell⟩
    · cases herror
  · rintro ⟨⟨layout, hlayout⟩, hex, hdigest, hwell⟩
    have hrecorded : config.recordedDigest source =
        some ⟨source.algorithm.getD config.hashAlgorithm, hex⟩ := by
      rw [recordedDigest, hdigest, Option.map_some]
    have hrefused := resolveDigest_eq_error_iff.mpr ⟨_, hrecorded, hwell, rfl⟩
    exact ⟨_, resolvePlan_eq_error_iff.mpr (Or.inr ⟨layout, hlayout, Or.inl hrefused⟩)⟩

/-- The name refuses a source exactly where it is contested in the listing. -/
theorem Valid.resolvePlan_eq_collision_iff (h : config.Valid) {name : String} :
    config.resolvePlan source = .error (.collision name) ↔
      ∃ directory entries pattern, source.layout = .listing directory name entries ∧
        config.fragmentPattern = .ok pattern ∧ Contested pattern entries name := by
  constructor
  · intro hrefused
    rcases h.error_of_resolvePlan hrefused with
      ⟨directory, _, entries, pattern, hlayout, hpattern, hcontested, herror⟩ |
        ⟨_, _, _, _, _, herror⟩ | ⟨_, herror⟩
    · cases herror
      exact ⟨directory, entries, pattern, hlayout, hpattern, hcontested⟩
    · cases herror
    · cases herror
  · rintro ⟨directory, entries, pattern, hlayout, hpattern, hcontested⟩
    apply resolvePlan_eq_error_iff.mpr
    rw [hlayout]
    exact Or.inl (resolveLayout_of_contested hpattern hcontested)

/-- What becomes of a source: it is refused for its digest exactly where that is no digest of its
algorithm and the layout has a plan, and with a collision exactly where its name is contested; any
other refusal is for a text. A plan has its chunks placed, goes through the proxy where the source
or the configuration says so, and its sizes have a sum. -/
structure Resolves (config : Config) (source : PlanSource) (result : Except Error Plan) : Prop where
  misdigested : (∃ fault, result = .error (.config fault)) ↔
    (∃ plan, config.resolveLayout source.layout = .ok plan) ∧ ∃ hex, source.digest = some hex ∧
      ¬ ExpectedDigest.WellFormed ⟨source.algorithm.getD config.hashAlgorithm, hex⟩
  contested : ∀ name, result = .error (.collision name) ↔
    ∃ directory entries pattern, source.layout = .listing directory name entries ∧
      config.fragmentPattern = .ok pattern ∧ Contested pattern entries name
  refused : ∀ error, result = .error error → (∃ fault, error = .config fault) ∨
    (∃ name, error = .collision name) ∨ ∃ fault, error = .parse fault
  placed : ∀ plan, result = .ok plan → ∀ address ∈ plan.addresses, config.Places address
  routed : ∀ plan, result = .ok plan →
    (plan.proxied = true ↔ source.proxied = true ∨ config.mustProxy = true)
  fits : ∀ plan, result = .ok plan → plan.Fits

/-- Under a configuration that can be worked with, every source is resolved or refused for what it
records, never for a setting. -/
theorem source_resolved (hvalid : config.validate = .ok ()) (source : PlanSource) :
    config.Resolves source (config.resolvePlan source) := by
  have h : config.Valid := validate_eq_ok_iff.mp hvalid
  constructor
  case misdigested => exact h.resolvePlan_eq_config_iff
  case contested => exact fun name => h.resolvePlan_eq_collision_iff
  case refused =>
    intro error hrefused
    rcases h.error_of_resolvePlan hrefused with
      ⟨_, name, _, _, _, _, _, rfl⟩ | ⟨_, _, _, _, _, rfl⟩ | hfault
    · exact Or.inr (Or.inl ⟨name, rfl⟩)
    · exact Or.inl ⟨_, rfl⟩
    · exact Or.inr (Or.inr hfault)
  case placed =>
    intro plan hplan
    obtain ⟨layout, hlayout, -, rfl, -⟩ := resolvePlan_eq_ok_iff.mp hplan
    have hplaced := h.places_of_resolveLayout hlayout
    exact hplaced
  case routed =>
    intro plan hplan
    obtain ⟨layout, -, -, rfl, -⟩ := resolvePlan_eq_ok_iff.mp hplan
    exact Bool.or_eq_true_iff
  case fits =>
    intro plan hplan
    exact (of_resolvePlan hplan).1

end Config

/-- A directory with slashes behind it. -/
def slashedConfig : Config := { remotePath := "/r//" }

/-- A contested name and a digest that is too short are refused, and a plan lies below the
directory, however many slashes there are. -/
theorem source_resolved_slashedConfig : slashedConfig.validate = .ok () ∧
    slashedConfig.resolvePlan
        ⟨.listing "d" "a.rclone_chunk.1" nestedListing, none, none, false⟩ =
      .error (.collision "a.rclone_chunk.1") ∧
    (∃ fault, slashedConfig.resolvePlan ⟨.chunks [], some "00", none, false⟩ =
      .error (.config fault)) ∧
    ∀ address ∈ numberedPlan.addresses, slashedConfig.Places address := by
  have hvalid : slashedConfig.validate = .ok () := rfl
  have hpattern : slashedConfig.fragmentPattern = .ok .standard := rfl
  have hchunks : slashedConfig.resolveLayout (.chunks []) = .ok { chunks := [] } := rfl
  have hshort : ¬ ExpectedDigest.WellFormed ⟨slashedConfig.hashAlgorithm, "00"⟩ := by decide
  have hplan : slashedConfig.resolvePlan ⟨.listing "//d/" "a" numberedListing, none, none, true⟩ =
      .ok numberedPlan := by
    simp only [Config.resolvePlan, Config.resolveLayout, chunkPlan, fragmentsOf,
      fragments_eq_insertionSort]
    decide +kernel
  have hnamed := Config.source_resolved hvalid
    ⟨.listing "d" "a.rclone_chunk.1" nestedListing, none, none, false⟩
  have hdigest := Config.source_resolved hvalid ⟨.chunks [], some "00", none, false⟩
  have hplaced := Config.source_resolved hvalid
    ⟨.listing "//d/" "a" numberedListing, none, none, true⟩
  refine ⟨hvalid, ?_, ?_, hplaced.placed numberedPlan hplan⟩
  · exact (hnamed.contested _).mpr
      ⟨"d", nestedListing, .standard, rfl, hpattern, contested_nestedListing⟩
  · exact hdigest.misdigested.mpr ⟨⟨_, hchunks⟩, "00", rfl, hshort⟩

end ChunkedFile
