import ChunkedFile.Proofs.Session.Turns
import ChunkedFile.Proofs.Stream.Reads

/-!
# Opened ranges

A plan whose sizes have a sum has a link, and every range that the link opens is a stream from the
range's start to its end or the end of the file, whichever comes first.
-/

namespace ChunkedFile

/-- A computation yields a value exactly where its first step and what follows on it do. -/
theorem bind_eq_ok_iff {ε α β : Type} {first : Except ε α} {next : α → Except ε β} {b : β} :
    first >>= next = .ok b ↔ ∃ a, first = .ok a ∧ next a = .ok b := by
  cases first <;> simp [bind, Except.bind]

/-- A computation fails exactly where its first step does, or what follows on it. -/
theorem bind_eq_error_iff {α β : Type} {first : Except Error α} {next : α → Except Error β}
    {error : Error} : first >>= next = .error error ↔
      first = .error error ∨ ∃ a, first = .ok a ∧ next a = .error error := by
  cases first <;> simp [bind, Except.bind]

namespace Plan

/-- The exact sum of the sizes of a plan's chunks. -/
def exactSize (plan : Plan) : Nat := (plan.sizes.map UInt64.toNat).sum

/-- The sum of the sizes is itself a size. -/
def Fits (plan : Plan) : Prop := plan.exactSize ≤ Size.limit

instance (plan : Plan) : Decidable plan.Fits := inferInstanceAs (Decidable (_ ≤ _))

/-- Where the bytes of a chunk begin in the file. -/
def offset (plan : Plan) (i : Nat) : Nat := ((plan.sizes.map UInt64.toNat).take i).sum

end Plan

/-- A table of exactly the chunks of a plan. -/
structure ChunkTable.Lists (table : ChunkTable) (plan : Plan) : Prop where
  index : table.index = Index.ofSizes plan.sizes
  addresses : table.addresses = plan.addresses.toArray

namespace ChunkTable.Lists

variable {table : ChunkTable} {plan : Plan}

/-- The sizes of the table are those of the plan. -/
theorem sizes_eq (h : table.Lists plan) : table.index.sizes = plan.sizes.map UInt64.toNat := by
  rw [h.index, Index.sizes_ofSizes]

/-- A table that lists a plan is laid out. -/
theorem laid (h : table.Lists plan) : table.index.Laid := by
  rw [h.index]
  exact Index.laid_ofSizes plan.sizes

/-- Chunks of the table begin where those of the plan do. -/
theorem offset_eq (h : table.Lists plan) (i : Nat) : table.index.offset i = plan.offset i := by
  rw [Index.offset, h.sizes_eq, Plan.offset]

/-- The size of the table is the exact one where that can be held. -/
theorem total_eq (h : table.Lists plan) (hfits : plan.Fits) : table.total = plan.exactSize := by
  have hsum : table.index.sizes.sum = plan.exactSize := by rw [h.sizes_eq, Plan.exactSize]
  rw [total, h.laid.total_eq_sum (by rw [hsum]; exact hfits), hsum]

/-- The chunks of the table are those of the plan, with their sizes and addresses. -/
theorem getElem?_chunks (h : table.Lists plan) {i : Nat} {address : String}
    (haddress : table.addressAt? i = some address) :
    ∃ chunk, plan.chunks[i]? = some chunk ∧ chunk.address = address ∧
      table.index.sizeAt i = chunk.size.toNat := by
  rw [addressAt?, h.addresses, List.getElem?_toArray, Plan.addresses, List.getElem?_map,
    Option.map_eq_some_iff] at haddress
  obtain ⟨chunk, hchunk, rfl⟩ := haddress
  refine ⟨chunk, hchunk, rfl, ?_⟩
  simp [Index.sizeAt, h.sizes_eq, Plan.sizes, List.getD_eq_getElem?_getD, hchunk]

end ChunkTable.Lists

/-- A plan that has a table has sizes with a sum, and the table lists its chunks. -/
theorem ChunkTable.of_ofPlan {table : ChunkTable} {plan : Plan}
    (h : ChunkTable.ofPlan plan = .ok table) : plan.Fits ∧ table.Lists plan := by
  rw [ofPlan] at h
  obtain ⟨index, hindex, h⟩ := bind_eq_ok_iff.mp h
  obtain ⟨hfits, rfl⟩ := Index.ofSizes?_eq_ok_iff.mp hindex
  rw [ofAddresses] at h
  split at h
  · rw [Except.ok.injEq] at h
    rw [← h]
    exact ⟨hfits, rfl, rfl⟩
  · cases h

namespace Session

/-- A new session on a file whose sizes have a sum is placed at the offset that it is moved to. -/
theorem skipTo_placed {s t : Session} {start : Nat} (hlaid : s.table.index.Laid)
    (hfits : s.fileSize ≤ Size.limit) (hdelivered : s.delivered = 0)
    (hwindow : s.window.size = 0) (h : s.skipTo start = .ok t) :
    t.Placed ∧ start ≤ s.fileSize ∧ t = { s with start, cursor := t.cursor, skip := t.skip } := by
  have htotal : s.table.total = s.fileSize := hlaid.total_eq_sum hfits
  obtain ⟨hstands, hstart, heq⟩ := Stands.skipTo hlaid hdelivered hwindow h
  rw [htotal] at hstart
  have htable : t.table = s.table := by rw [heq]
  have hfile : t.fileSize = s.fileSize := by rw [fileSize, htable, fileSize]
  refine ⟨⟨hstands, ?_, ?_⟩, hstart, heq⟩
  · rw [htable]
    exact hlaid
  · rw [hfile]
    exact hfits

/-- What the session on a plan's file is made of. -/
theorem eq_of_ofPlan {s : Session} {plan : Plan} (h : Session.ofPlan plan = .ok s) :
    ∃ table verifier, ChunkTable.ofPlan plan = .ok table ∧
      s = { table, policy := .forRoute plan.proxied, proxied := plan.proxied, verifier } := by
  rw [ofPlan] at h
  obtain ⟨table, htable, h⟩ := bind_eq_ok_iff.mp h
  obtain ⟨verifier, -, h⟩ := bind_eq_ok_iff.mp h
  cases h
  exact ⟨table, verifier, htable, rfl⟩

/-- The session on a plan's file is a built one. -/
theorem built_ofPlan {s : Session} {plan : Plan} (h : Session.ofPlan plan = .ok s) : s.Built := by
  obtain ⟨table, verifier, htable, rfl⟩ := eq_of_ofPlan h
  exact .configured (.new table _ (ChunkTable.of_ofPlan htable).2.index) _ _ verifier

end Session

namespace Link

variable {link : Link} {plan : Plan} {range : ByteRange} {steps : List Step}

/-- A plan whose sizes have a sum has a link. -/
theorem exists_ofPlan (h : plan.Fits) :
    ∃ link, Link.ofPlan plan = .ok link ∧ link.table.Lists plan ∧ link.proxied = plan.proxied := by
  have hindex : Index.ofSizes? plan.sizes = .ok (Index.ofSizes plan.sizes) :=
    Index.ofSizes?_eq_ok_iff.mpr ⟨h, rfl⟩
  have hlength : plan.addresses.toArray.size = (Index.ofSizes plan.sizes).size := by
    rw [Index.size, ← Index.length_sizes, Index.sizes_ofSizes]
    simp [Plan.addresses, Plan.sizes]
  have htable : ChunkTable.ofPlan plan =
      .ok ⟨Index.ofSizes plan.sizes, plan.addresses.toArray, hlength⟩ := by
    rw [ChunkTable.ofPlan, hindex]
    exact dif_pos hlength
  refine ⟨{
    table := ⟨Index.ofSizes plan.sizes, plan.addresses.toArray, hlength⟩
    policy := .forRoute plan.proxied
    proxied := plan.proxied
    digest := plan.digest }, ?_, ⟨rfl, rfl⟩, rfl⟩
  rw [Link.ofPlan, htable]
  rfl

/-- What the link to a plan's file is made of. -/
theorem eq_of_ofPlan (h : Link.ofPlan plan = .ok link) :
    ∃ table, ChunkTable.ofPlan plan = .ok table ∧ link = {
      table
      policy := .forRoute plan.proxied
      proxied := plan.proxied
      digest := plan.digest } := by
  rw [ofPlan] at h
  obtain ⟨table, htable, h⟩ := bind_eq_ok_iff.mp h
  cases h
  exact ⟨table, htable, rfl⟩

/-- A plan that has a link has sizes with a sum, and the link lists its chunks. -/
theorem of_ofPlan (h : Link.ofPlan plan = .ok link) :
    plan.Fits ∧ link.table.Lists plan ∧ link.digest = plan.digest := by
  obtain ⟨table, htable, rfl⟩ := eq_of_ofPlan h
  obtain ⟨hfits, hlists⟩ := ChunkTable.of_ofPlan htable
  exact ⟨hfits, hlists, rfl⟩

/-- What an opened range is read from and holds on to, and that opening it only counts it. -/
private theorem of_openRange {opened : Opened}
    (h : (link.openRange Program.backend range).Returns steps (.ok opened)) :
    link.openStream range = .ok opened.stream ∧ steps = [.record .sessionOpened] ∧
      opened.releases = ReleaseSet.add {} .session := by
  rw [openRange] at h
  cases hstream : link.openStream range with
  | error e =>
    simp only [hstream, Program.returns_pure_iff] at h
    cases h.2
  | ok stream =>
    simp only [hstream, Program.returns_bind_iff, Program.returns_record_iff,
      Program.returns_pure_iff, Except.ok.injEq] at h
    obtain ⟨_, _, _, rfl, ⟨rfl, rfl⟩, rfl⟩ := h
    exact ⟨rfl, rfl, rfl⟩

/-- Opening a range asks for nothing and counts the session. -/
theorem openRange_returns {opened : Opened}
    (h : (link.openRange Program.backend range).Returns steps (.ok opened)) :
    link.openStream range = .ok opened.stream ∧ steps = [.record .sessionOpened] :=
  ⟨(of_openRange h).1, (of_openRange h).2.1⟩

/-- An opened range holds on to its session. -/
theorem releases_of_openRange {opened : Opened}
    (h : (link.openRange Program.backend range).Returns steps (.ok opened)) :
    opened.releases = ReleaseSet.add {} .session := (of_openRange h).2.2

/-- The bound of a range, as far as it lies in the file. -/
theorem boundedLength_spec (hstart : range.start.toNat ≤ link.size)
    (hfits : link.size ≤ Size.limit) :
    match link.boundedLength range with
    | some length => length = range.effectiveLength link.size
    | none => range.start.toNat + range.effectiveLength link.size = link.size := by
  rw [boundedLength, ByteRange.effectiveLength]
  cases range.length with
  | none =>
    simp only
    omega
  | some length =>
    by_cases hend : link.size ≤ Size.add range.start.toNat length.toNat
    · simp only [if_pos hend]
      rw [Size.add] at hend
      omega
    · simp only [if_neg hend]
      rw [Size.add] at hend
      omega

/-- The stream of a range is read from a new session that was placed at the range's start. -/
theorem of_openStream {stream : RangeStream} (h : link.openStream range = .ok stream) :
    ∃ session, Session.skipTo
        { table := link.table, policy := link.policy, proxied := link.proxied }
        range.start.toNat = .ok session ∧
      link.verifierFor range = .ok stream.session.verifier ∧
      stream =
        ⟨{ session with verifier := stream.session.verifier }, link.boundedLength range⟩ := by
  rw [openStream] at h
  obtain ⟨session, hskip, h⟩ := bind_eq_ok_iff.mp h
  obtain ⟨verifier, hverifier, h⟩ := bind_eq_ok_iff.mp h
  cases h
  exact ⟨session, hskip, hverifier, rfl⟩

/-- An opened range is read from a built session. -/
theorem openStream_built {stream : RangeStream} (h : link.openStream range = .ok stream)
    (hlists : link.table.Lists plan) : stream.session.Built := by
  obtain ⟨session, hskip, -, heq⟩ := of_openStream h
  have hnew := Session.Built.new link.table _ hlists.index
  have hplaced := Session.Built.skipTo (.configured hnew link.policy link.proxied none) hskip
  rw [heq]
  exact .configured hplaced session.policy session.proxied _

/-- What an opened range is: a stream over the part of the range that lies in the file. -/
theorem openStream_within {stream : RangeStream} (h : link.openStream range = .ok stream)
    (hlists : link.table.Lists plan) (hfits : plan.Fits) :
    stream.Within (range.start.toNat + range.effectiveLength link.size) ∧
      stream.session.table = link.table ∧ stream.session.proxied = link.proxied ∧
      stream.session.start = range.start.toNat ∧ stream.offset = range.start.toNat ∧
      stream.session.window = .empty := by
  have hsum : link.table.index.sizes.sum = plan.exactSize := by rw [hlists.sizes_eq, Plan.exactSize]
  have hsize : link.size = plan.exactSize := hlists.total_eq hfits
  rw [Plan.Fits] at hfits
  obtain ⟨session, hskip, -, hstream⟩ := of_openStream h
  rw [hstream]
  obtain ⟨hplaced, hstart, heq⟩ := Session.skipTo_placed hlists.laid (by
    rw [Session.fileSize, hsum]; exact hfits) rfl rfl hskip
  rw [Session.fileSize, hsum] at hstart
  have hbound := link.boundedLength_spec (by rw [hsize]; exact hstart) (by rw [hsize]; exact hfits)
  have hle : range.start.toNat + range.effectiveLength link.size ≤ plan.exactSize := by
    rw [ByteRange.effectiveLength]
    split <;> omega
  have hsession : session.start = range.start.toNat ∧ session.delivered = 0 ∧
      session.table = link.table ∧ session.proxied = link.proxied ∧ session.window = .empty ∧
      session.closed = false := by
    rw [heq]
    exact ⟨rfl, rfl, rfl, rfl, rfl, rfl⟩
  obtain ⟨hstarted, hdelivered, htable, hproxied, hwindow, hclosed⟩ := hsession
  have hfile : session.fileSize = plan.exactSize := by rw [Session.fileSize, htable, hsum]
  refine ⟨⟨?_, hclosed, ?_, ?_, ?_⟩, htable, hproxied, hstarted, ?_, hwindow⟩
  · exact ⟨⟨hplaced.skip, hplaced.position⟩, hplaced.laid, hplaced.fits⟩
  · intro remaining (hremaining : link.boundedLength range = some remaining)
    simp only [hremaining] at hbound
    simp only [RangeStream.offset, hstarted, hdelivered, hbound, Nat.add_zero]
  · intro (hremaining : link.boundedLength range = none)
    simp only [hremaining] at hbound
    exact (hfile.trans hsize.symm).trans hbound.symm
  · exact Nat.le_trans hle (Nat.le_of_eq hfile.symm)
  · simp only [RangeStream.offset, hstarted, hdelivered, Nat.add_zero]

end Link

/-- The plan of a file of three bytes, with an empty chunk between the two others. -/
def threeBytes : Plan := { chunks := [⟨"a", 2⟩, ⟨"b", 0⟩, ⟨"c", 1⟩] }

/-- The table of the file of three bytes. -/
def threeBytesTable : ChunkTable := ⟨Index.ofSizes [2, 0, 1], #["a", "b", "c"], rfl⟩

/-- The range of all but the first of the three bytes. -/
def threeBytesTail : Opened :=
  ⟨⟨{ table := threeBytesTable, start := 1, skip := 1 }, none⟩, ReleaseSet.add {} .session⟩

/-- The range after one of its two bytes. -/
def threeBytesLast : RangeStream :=
  ⟨{ table := threeBytesTable, start := 1, cursor := 1, delivered := 1,
     window := ⟨⟨#[7, 8]⟩, 2, by decide⟩ }, none⟩

/-- A read of the range that is cancelled, and then one that brings a byte. -/
def threeBytesRounds : List Round :=
  [⟨5, [.now 0, .fetch ⟨"a", false⟩ (.error .cancelled)], .error .cancelled,
      threeBytesTail.stream⟩,
    ⟨5, [.now 0, .fetch ⟨"a", false⟩ (.ok ⟨#[7, 8]⟩), .now 0, .record (.chunkFetched 2 0),
        .record (.bytesDelivered 1)], .ok ⟨#[8]⟩, threeBytesLast⟩]

theorem threeBytes_ofPlan : Link.ofPlan threeBytes =
    .ok { table := threeBytesTable, policy := .direct, proxied := false, digest := none } := rfl

/-- The range is opened, behind the first byte. -/
theorem threeBytes_openRange : (Link.openRange Program.backend
    { table := threeBytesTable, policy := .direct, proxied := false, digest := none }
      ⟨1, none⟩).Returns [.record .sessionOpened] (.ok threeBytesTail) := by
  apply Program.returns_of_follow
  with_unfolding_all rfl

theorem threeBytes_reads : threeBytesTail.stream.Reads threeBytesRounds threeBytesLast := by
  have hcancelled : (threeBytesTail.stream.read Program.backend 5).Returns
      [.now 0, .fetch ⟨"a", false⟩ (.error .cancelled)]
      (.error .cancelled, threeBytesTail.stream) := by
    apply Program.returns_of_follow
    with_unfolding_all rfl
  have harrived : (threeBytesTail.stream.read Program.backend 5).Returns
      [.now 0, .fetch ⟨"a", false⟩ (.ok ⟨#[7, 8]⟩), .now 0, .record (.chunkFetched 2 0),
        .record (.bytesDelivered 1)] (.ok ⟨#[8]⟩, threeBytesLast) := by
    apply Program.returns_of_follow
    with_unfolding_all rfl
  exact .snoc (.snoc .nil hcancelled) harrived

end ChunkedFile
