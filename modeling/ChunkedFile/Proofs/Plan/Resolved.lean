import ChunkedFile.Config.Resolve
import ChunkedFile.Proofs.Plan.Sums
import ChunkedFile.Proofs.Stream.Admission

/-!
# Resolved plans

A source is resolved to a plan whose sizes have a sum and whose digest is well-formed, whatever its
layout. So the plan has a link, and the link opens every range that begins in the file.
-/

namespace ChunkedFile

namespace Plan

variable {plan : Plan}

/-- A plan of as many addresses as sizes has these sizes. -/
theorem exactSize_zipWith {addresses : List String} {sizes : List UInt64}
    (hlength : addresses.length = sizes.length) :
    exactSize { chunks := List.zipWith ChunkRef.mk addresses sizes } =
      (sizes.map UInt64.toNat).sum := by
  have hsizes : (List.zipWith ChunkRef.mk addresses sizes).map ChunkRef.size = sizes := by
    rw [← List.map_uncurry_zip_eq_zipWith, List.map_map]
    exact List.map_snd_zip hlength.ge
  rw [exactSize, Plan.sizes, hsizes]

/-- The valid plan of addresses and sizes pairs them in order. -/
theorem ofSizes_eq_ok_iff {addresses : List String} {sizes : List UInt64} :
    ofSizes addresses sizes = .ok plan ↔ addresses.length = sizes.length ∧
      (sizes.map UInt64.toNat).sum ≤ Size.limit ∧
        plan = { chunks := List.zipWith ChunkRef.mk addresses sizes } := by
  rw [ofSizes]
  by_cases hlength : addresses.length = sizes.length
  · rw [if_neg (not_not.mpr hlength), bind_eq_ok_iff, ← exactSize_zipWith hlength]
    constructor
    · rintro ⟨total, hvalid, hplan⟩
      cases hplan
      exact ⟨hlength, (validate_eq_ok_iff.mp hvalid).1, rfl⟩
    · rintro ⟨-, hfits, rfl⟩
      exact ⟨_, validate_eq_ok_iff.mpr ⟨hfits, rfl⟩, rfl⟩
  · rw [if_pos hlength]
    simp [hlength]

end Plan

namespace Config

variable {config : Config} {source : PlanSource} {plan : Plan}

/-- The digest that a source records, with the configured algorithm where it names none. -/
def recordedDigest (config : Config) (source : PlanSource) : Option ExpectedDigest :=
  source.digest.map fun hex => ⟨source.algorithm.getD config.hashAlgorithm, hex⟩

/-- The digest of a source is taken as it is recorded where it is well-formed. -/
theorem resolveDigest_eq_ok_iff {digest : Option ExpectedDigest} :
    config.resolveDigest source = .ok digest ↔
      digest = config.recordedDigest source ∧
        ∀ expected, digest = some expected → expected.WellFormed := by
  rw [resolveDigest, recordedDigest]
  cases source.digest with
  | none =>
    rw [Except.ok.injEq, Option.map_none]
    constructor
    · rintro rfl
      exact ⟨rfl, nofun⟩
    · exact fun h => h.1.symm
  | some hex =>
    rw [bind_eq_ok_iff, Option.map_some]
    constructor
    · rintro ⟨v, hv, hdigest⟩
      cases hdigest
      refine ⟨rfl, fun expected hexpected => ?_⟩
      rw [Option.some.injEq] at hexpected
      rw [← hexpected]
      exact ExpectedDigest.exists_ofHex_iff.mp ⟨v, hv⟩
    · rintro ⟨rfl, hwell⟩
      obtain ⟨v, hv⟩ := ExpectedDigest.exists_ofHex_iff.mpr (hwell _ rfl)
      exact ⟨v, hv, rfl⟩

/-- What a source is resolved to: the chunks of its layout, whose sizes have a sum, with its digest,
which is well-formed, and its route. -/
theorem resolvePlan_eq_ok_iff : config.resolvePlan source = .ok plan ↔
    ∃ layout, config.resolveLayout source.layout = .ok layout ∧
      (∀ digest, config.recordedDigest source = some digest → digest.WellFormed) ∧
      plan = { layout with
        digest := config.recordedDigest source
        proxied := source.proxied || config.mustProxy } ∧ plan.Fits := by
  rw [resolvePlan, bind_eq_ok_iff]
  refine exists_congr fun layout => and_congr_right fun _ => ?_
  rw [bind_eq_ok_iff]
  constructor
  · rintro ⟨digest, hdigest, hplan⟩
    obtain ⟨rfl, hwell⟩ := resolveDigest_eq_ok_iff.mp hdigest
    obtain ⟨total, hvalid, hplan⟩ := bind_eq_ok_iff.mp hplan
    cases hplan
    exact ⟨hwell, rfl, (Plan.validate_eq_ok_iff.mp hvalid).1⟩
  · rintro ⟨hwell, rfl, hfits⟩
    refine ⟨_, resolveDigest_eq_ok_iff.mpr ⟨rfl, hwell⟩, ?_⟩
    exact bind_eq_ok_iff.mpr ⟨_, Plan.validate_eq_ok_iff.mpr ⟨hfits, rfl⟩, rfl⟩

/-- A resolved plan has sizes with a sum and a well-formed digest. -/
theorem of_resolvePlan (h : config.resolvePlan source = .ok plan) :
    plan.Fits ∧ ∀ digest, plan.digest = some digest → digest.WellFormed := by
  obtain ⟨layout, -, hwell, rfl, hfits⟩ := resolvePlan_eq_ok_iff.mp h
  exact ⟨hfits, hwell⟩

/-- A resolved plan can be served: it has a link of exactly the size of its chunks, and under any
retry policy, verified or not, the link opens every range that begins in the file, and the first
byte of an empty one. It opens no other, tells where the range begins and the file ends, and has
then asked for nothing and counted nothing. -/
theorem resolved_servable (hplan : config.resolvePlan source = .ok plan) :
    plan.totalSize = plan.exactSize ∧
    ∃ link, Link.ofPlan plan = .ok link ∧ link.size = plan.totalSize ∧
      ∀ (policy : RetryPolicy) (verify : Bool) (range : ByteRange),
        ((range.start = 0 ∨ range.start.toNat < link.size) →
          ∃ opened, ∀ (m : Type → Type) [Monad m] (backend : Backend m),
            Link.openRange backend { link with policy, verify } range = do
              backend.record .sessionOpened
              return .ok opened) ∧
        (¬ (range.start = 0 ∨ range.start.toNat < link.size) →
          ∀ (m : Type → Type) [Monad m] (backend : Backend m),
            Link.openRange backend { link with policy, verify } range =
              pure (.error (.range (.beyondEnd range.start.toNat link.size)))) := by
  obtain ⟨hfits, hdigest⟩ := of_resolvePlan hplan
  obtain ⟨link, hlink, hlists, -⟩ := Link.exists_ofPlan hfits
  obtain ⟨-, -, hrecorded⟩ := Link.of_ofPlan hlink
  rw [← hrecorded] at hdigest
  refine ⟨hfits.totalSize_eq, link, hlink, ?_, fun policy verify range => ⟨?_, ?_⟩⟩
  · rw [hfits.totalSize_eq]
    exact hlists.total_eq hfits
  · intro hstart
    obtain ⟨stream, hstream⟩ : ∃ stream,
        Link.openStream { link with policy, verify } range = .ok stream :=
      Link.exists_openStream hdigest hstart
    exact ⟨_, fun m _ backend => Link.openRange_of_ok backend hstream⟩
  · intro hstart m _ backend
    exact Link.openRange_of_error backend (Link.openStream_of_not hstart)

end Config

/-- A file of one byte more than a part, with the digest of no bytes in capitals and behind
a blank. -/
def twoParts : PlanSource where
  layout := .uniform ["x", "y"] 52428801
  digest := some " D41D8CD98F00B204E9800998ECF8427E"
  algorithm := some .md5

/-- The plan of the file. -/
def twoPartsPlan : Plan where
  chunks := [⟨"/x", 52428800⟩, ⟨"/y", 1⟩]
  digest := some ⟨.md5, " D41D8CD98F00B204E9800998ECF8427E"⟩

/-- The last byte can be read, and the range behind it is refused. -/
theorem resolved_servable_twoParts :
    Config.resolvePlan {} twoParts = .ok twoPartsPlan ∧
      ∃ link, Link.ofPlan twoPartsPlan = .ok link ∧ link.size = 52428801 ∧
        (∃ opened, link.openRange Program.backend ⟨52428800, some 1⟩ = do
          Program.backend.record .sessionOpened
          return .ok opened) ∧
        link.openRange Program.backend ⟨52428801, none⟩ =
          pure (.error (.range (.beyondEnd 52428801 52428801))) := by
  have hplan : Config.resolvePlan {} twoParts = .ok twoPartsPlan := rfl
  obtain ⟨htotal, link, hlink, hsize, hopen⟩ := Config.resolved_servable hplan
  have hexact : twoPartsPlan.exactSize = 52428801 := by decide
  rw [htotal, hexact] at hsize
  rw [hsize] at hopen
  obtain ⟨hinside, -⟩ := hopen link.policy link.verify ⟨52428800, some 1⟩
  obtain ⟨-, hbehind⟩ := hopen link.policy link.verify ⟨52428801, none⟩
  obtain ⟨opened, hopened⟩ := hinside (by decide)
  exact ⟨hplan, link, hlink, hsize, ⟨opened, hopened Program Program.backend⟩,
    hbehind (by decide) Program Program.backend⟩

end ChunkedFile
