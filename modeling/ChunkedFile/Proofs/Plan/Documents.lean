import ChunkedFile.Plan.Document
import ChunkedFile.Proofs.Json.Records
import ChunkedFile.Proofs.Plan.Resolved
import ChunkedFile.Proofs.Time.Rendering

/-!
# Plans and their sources as texts

What is written for a source or a plan is read as that source or plan. The layout of a source is
told by the names of its members: none of the three has all the names of one that is tried before
it, and none has a name of the other fields. A plan is checked when it is read, so one that is too
large is refused at the first chunk that passes the limit.
-/

namespace ChunkedFile

open Json

theorem Algorithm.ofJson?_toJson (a : Algorithm) : ofJson? a.toJson = some a := by
  have hname : (ofString a.name).string? = some a.name := string?_ofString a.name
  change (ofString a.name).string?.bind ofName? = some a
  rw [hname, Option.bind_some, ofName?_name]

theorem ChunkRef.ofJson?_toJson (c : ChunkRef) : ofJson? c.toJson = some c := by
  rw [ofJson?, toJson, fields?_record (by simp)]
  simp [List.lookup_cons, required?, string?_ofString, size?_ofNat]

theorem ExpectedDigest.ofJson?_toJson (d : ExpectedDigest) : ofJson? d.toJson = some d := by
  rw [ofJson?, toJson, fields?_record (by simp)]
  simp [List.lookup_cons, required?, string?_ofString, Algorithm.ofJson?_toJson]

theorem Instant.ofJson?_render (t : Instant) : Instant.ofJson? (ofString t.render) = some t := by
  rw [ofJson?, string?_ofString, Option.bind_some, parse?_render]

theorem StoredEntry.ofJson?_toJson (e : StoredEntry) : ofJson? e.toJson = some e := by
  rw [ofJson?, toJson, fields?_record (by simp)]
  simp [List.lookup_cons, required?, string?_ofString, size?_ofNat, Instant.ofJson?_render, bool?]

/-- A plan is read back. -/
theorem Plan.ofJson?_toJson (plan : Plan) : ofJson? plan.toJson = some plan := by
  have hchunks := list?_map ChunkRef.ofJson?_toJson plan.chunks
  have hdigest := nullable?_ofOption ExpectedDigest.ofJson?_toJson (fun _ => nofun) plan.digest
  rw [ofJson?, toJson, fields?_record (by simp)]
  simp [List.lookup_cons, required?, optional?, hchunks, hdigest, bool?]

theorem ChunkRef.isStorable_toJson (c : ChunkRef) (depth : Nat) :
    c.toJson.isStorable (depth + 1) = true := by
  refine isStorable_record ?_
  simp [isStorable_ofString, isStorable_ofNat (Size.toNat_le_limit c.size)]

theorem StoredEntry.isStorable_toJson (e : StoredEntry) (depth : Nat) :
    e.toJson.isStorable (depth + 1) = true := by
  refine isStorable_record ?_
  simp [isStorable_ofString, isStorable_ofNat (Size.toNat_le_limit e.size), isStorable]

/-- The members of a layout are nested two levels deep at most. -/
theorem Layout.isStorable_members (layout : Layout) (depth : Nat) :
    membersStorable (depth + 2) (layout.members.map written) = true := by
  refine membersStorable_written ?_
  cases layout with
  | chunks refs =>
    simp [members, isStorable_list (fun c => ChunkRef.isStorable_toJson c depth) refs]
  | uniform parts size =>
    simp [members, isStorable_list isStorable_ofString parts,
      isStorable_ofNat (Size.toNat_le_limit size)]
  | listing directory name entries =>
    simp [members, isStorable_ofString,
      isStorable_list (fun e => StoredEntry.isStorable_toJson e depth) entries]

/-- A layout is read from its members, and by none of the readers that are tried before. -/
theorem Layout.ofMembers?_written (layout : Layout) :
    ofMembers? (layout.members.map written) = some layout := by
  have hrecord : Json.object (layout.members.map written) = record layout.members := rfl
  have hnames : (layout.members.map Prod.fst).Nodup := by cases layout <;> simp [members]
  have hstorable : membersStorable layoutDepth (layout.members.map written) = true :=
    isStorable_members layout 124
  rw [ofMembers?, if_pos hstorable]
  simp only [hrecord, chunks?, uniform?, listing?, fields?_record hnames]
  cases layout with
  | chunks refs => simp [members, List.lookup_cons, required?, list?_map ChunkRef.ofJson?_toJson]
  | uniform parts size =>
    simp [members, List.lookup_cons, required?, list?_map string?_ofString, size?_ofNat]
  | listing directory name entries =>
    simp [members, List.lookup_cons, required?, list?_map StoredEntry.ofJson?_toJson, string?_ofString]

namespace PlanSource

/-- The members of a source that are not those of its layout. -/
def ownMembers (source : PlanSource) : List (String × Json) := [
  ("digest", ofOption ofString source.digest),
  ("digest_algorithm", ofOption Algorithm.toJson source.algorithm),
  ("needs_proxy", .bool source.proxied)]

/-- A source's own members are told from those of its layout. -/
theorem filter_ownFields (source : PlanSource) :
    (source.layout.members ++ source.ownMembers).filter (fun m => ownFields.contains m.1) =
        source.ownMembers ∧
      (source.layout.members ++ source.ownMembers).filter (fun m => !ownFields.contains m.1) =
        source.layout.members := by
  cases source.layout <;> simp [Layout.members, ownMembers, ownFields]

/-- A source is read back, whichever its layout. -/
theorem ofJson?_toJson (source : PlanSource) : ofJson? source.toJson = some source := by
  obtain ⟨hown, hlayout⟩ := source.filter_ownFields
  have hjson : source.toJson =
      .object ((source.layout.members ++ source.ownMembers).map written) := rfl
  have hrecord : Json.object (source.ownMembers.map written) = record source.ownMembers := rfl
  have hnames : (source.ownMembers.map Prod.fst).Nodup := by simp [ownMembers]
  have hdigest := nullable?_ofOption string?_ofString (fun _ => nofun) source.digest
  have halgorithm := nullable?_ofOption Algorithm.ofJson?_toJson (fun _ => nofun) source.algorithm
  rw [hjson, ofJson?]
  simp only [List.filter_map, Function.comp_def, any_written, hown, hlayout, hrecord,
    fields?_record hnames, Layout.ofMembers?_written]
  simp [ownFields, ownMembers, List.lookup_cons, optional?, hdigest, halgorithm, bool?]

end PlanSource

theorem ChunkRef.plain_toJson (c : ChunkRef) : c.toJson.Plain := by
  refine .record _ ?_
  simp [Plain.ofString, Plain.ofNat]

theorem StoredEntry.plain_toJson (e : StoredEntry) : e.toJson.Plain := by
  refine .record _ ?_
  simp [Plain.ofString, Plain.ofNat, Plain.bool]

theorem Json.Plain.ofOption {α : Type} {f : α → Json} (h : ∀ a, (f a).Plain) (value : Option α) :
    (ofOption f value).Plain := by
  cases value with
  | none => exact .null
  | some a => exact h a

theorem Json.Plain.list {α : Type} {f : α → Json} (h : ∀ a, (f a).Plain) (items : List α) :
    (Json.array (items.map f)).Plain :=
  .array _ (by simp [h])

theorem ExpectedDigest.plain_toJson (d : ExpectedDigest) : d.toJson.Plain := by
  refine .record _ ?_
  simp [Plain.ofString, Algorithm.toJson]

theorem Plan.plain_toJson (plan : Plan) : plan.toJson.Plain := by
  refine .record _ ?_
  simp [Plain.list ChunkRef.plain_toJson, Plain.ofOption ExpectedDigest.plain_toJson, Plain.bool]

theorem PlanSource.plain_toJson (source : PlanSource) : source.toJson.Plain := by
  have halgorithm (a : Algorithm) : a.toJson.Plain := .ofString a.name
  refine .record _ ?_
  cases source.layout <;>
    simp [Layout.members, Plain.list ChunkRef.plain_toJson, Plain.list Plain.ofString,
      Plain.list StoredEntry.plain_toJson, Plain.ofOption Plain.ofString,
      Plain.ofOption halgorithm, Plain.ofString, Plain.ofNat, Plain.bool]

/-- What a document is written for is read from its text. -/
theorem readDocument_text {α : Type} {f : Json → Option α} {json : Json} {a : α} (h : json.Plain)
    (hjson : f json = some a) : readDocument f json.text = .ok a := by
  rw [readDocument, parse?_text h, Option.bind_some, hjson]

namespace Plan

/-- A plan is checked when its text is read. -/
theorem ofText_text (plan : Plan) : ofText plan.toJson.text = plan.validate.map fun _ => plan := by
  rw [ofText, readDocument_text plan.plain_toJson plan.ofJson?_toJson]
  change (plan.validate >>= fun _ => pure plan) = _
  cases plan.validate <;> rfl

end Plan

/-- What is written for a source is read as that source, in the layout that it has. What is written
for a plan is read as that plan where its sizes have a sum, and refused otherwise, at the first
chunk with which they pass the limit. -/
theorem texts_read_back :
    (∀ source : PlanSource, PlanSource.ofText source.toJson.text = .ok source) ∧
    ∀ plan : Plan,
      (plan.Fits → Plan.ofText plan.toJson.text = .ok plan) ∧
      (¬ plan.Fits → ∃ before chunk behind, plan.chunks = before ++ chunk :: behind ∧
        (before.map (·.size.toNat)).sum ≤ Size.limit ∧
        Size.limit < (before.map (·.size.toNat)).sum + chunk.size.toNat ∧
        Plan.ofText plan.toJson.text =
          .error (.parse (.sizesOverflow chunk.address chunk.size.toNat))) := by
  refine ⟨fun source => readDocument_text source.plain_toJson source.ofJson?_toJson, ?_⟩
  intro plan
  rw [plan.ofText_text]
  constructor
  · intro hfits
    rw [Plan.validate_eq_ok_iff.mpr ⟨hfits, rfl⟩]
    rfl
  · intro hlarge
    rw [Plan.Fits, ← plan.sum_map_size, Nat.not_le, ← Nat.zero_add (List.sum _)] at hlarge
    obtain ⟨before, chunk, behind, hchunks, hle, hlt, herror⟩ :=
      Plan.error_of_limit_lt (Nat.zero_le _) hlarge
    rw [Nat.zero_add] at hle hlt
    refine ⟨before, chunk, behind, hchunks, hle, hlt, ?_⟩
    rw [Plan.validate, herror]
    rfl

/-- A listing with a leap second after the year 9999 and a name to escape, a plan that has a sum,
and one that passes the limit before its last chunk. -/
theorem texts_read_back_escaped :
    let time : Instant :=
      ⟨10000, 2, 29, 23, 59, 59, 1500000000, by decide, by decide, by decide, by decide, by decide,
        by decide, by decide, by decide, by decide, by decide, by decide⟩
    let source : PlanSource :=
      ⟨.listing "/d" "a\"\\\n" [.file "a\"\\\n.1.é" 18446744073709551615 time], some "", none, true⟩
    let widest : Plan := { chunks := [⟨"chunks", 18446744073709551615⟩, ⟨"", 0⟩] }
    let wide : Plan := { widest with chunks := widest.chunks ++ [⟨"parts", 1⟩, ⟨"size", 5⟩] }
    PlanSource.ofText source.toJson.text = .ok source ∧
      (widest.Fits ∧ Plan.ofText widest.toJson.text = .ok widest) ∧
      ¬ wide.Fits ∧ ∃ before chunk behind, wide.chunks = before ++ chunk :: behind ∧
        (before.map (·.size.toNat)).sum ≤ Size.limit ∧
        Size.limit < (before.map (·.size.toNat)).sum + chunk.size.toNat ∧
        Plan.ofText wide.toJson.text =
          .error (.parse (.sizesOverflow chunk.address chunk.size.toNat)) :=
  have hfits : Plan.Fits { chunks := [⟨"chunks", 18446744073709551615⟩, ⟨"", 0⟩] } := by decide
  ⟨texts_read_back.1 _, ⟨hfits, (texts_read_back.2 _).1 hfits⟩, by decide,
    (texts_read_back.2 _).2 (by decide)⟩

end ChunkedFile
