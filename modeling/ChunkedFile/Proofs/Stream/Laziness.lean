import ChunkedFile.Proofs.Stream.Opening

/-!
# What the reads of a range fetch

The chunks taken in are those that hold some byte handed out. `Session.Begun` carries this from
read to read: a skip is only left over from the opening, and a window with bytes in it is the rest
of a chunk of which some byte was handed out.
-/

namespace ChunkedFile

namespace Index

/-- The chunks that hold some byte from `low` on and before `high`. -/
def meeting (index : Index) (low high : Nat) : List Nat :=
  (List.range index.extents.size).filter fun i =>
    max (index.offset i) low < min (index.offset (i + 1)) high

variable {index : Index} {low mid high c : Nat}

/-- No chunk holds a byte of nothing. -/
@[simp] theorem meeting_self : index.meeting low low = [] := by
  rw [meeting, List.filter_eq_nil_iff]
  intro i _
  rw [decide_eq_true_eq]
  omega

/-- Going on inside a chunk of which a byte was met already meets no other. -/
theorem meeting_of_begun (hbegun : index.offset c < mid) (hlow : low < mid) (hle : mid ≤ high)
    (hend : high ≤ index.offset (c + 1)) : index.meeting low high = index.meeting low mid := by
  rw [meeting, meeting]
  refine List.filter_congr fun i _ => ?_
  rw [decide_eq_decide]
  rcases Nat.lt_trichotomy i c with hi | rfl | hi
  · have hstop : index.offset (i + 1) ≤ index.offset c := index.offset_mono hi
    omega
  · omega
  · have hstart : index.offset (c + 1) ≤ index.offset i := index.offset_mono hi
    omega

/-- Where a test is met one place further, the places that meet it are one more. -/
private theorem filter_range_eq_append {n : Nat} {p q : Nat → Bool} (hc : c < n) (hq : q c = true)
    (hbefore : ∀ i, i < c → q i = p i) (hfrom : ∀ i, c ≤ i → p i = false)
    (hafter : ∀ i, c < i → q i = false) :
    (List.range n).filter q = (List.range n).filter p ++ [c] := by
  induction n with
  | zero => exact absurd hc (Nat.not_lt_zero c)
  | succ n ih =>
    rw [List.range_succ, List.filter_append, List.filter_append]
    by_cases hlast : c = n
    · subst hlast
      have hsame : (List.range c).filter q = (List.range c).filter p :=
        List.filter_congr fun i hi => hbefore i (List.mem_range.mp hi)
      simp [hsame, hq, hfrom c (Nat.le_refl c)]
    · have hlt : c < n := by omega
      rw [ih hlt]
      simp [hafter n hlt, hfrom n (Nat.le_of_lt hlt)]

/-- Going on into a chunk of which no byte was met yet meets that chunk. -/
theorem meeting_of_next (hc : c < index.extents.size) (hfirst : index.offset c = mid ∨ low = mid)
    (hlow : low ≤ mid) (hbegin : index.offset c ≤ mid) (hlt : mid < high)
    (hend : high ≤ index.offset (c + 1)) :
    index.meeting low high = index.meeting low mid ++ [c] := by
  refine filter_range_eq_append hc ?_ ?_ ?_ ?_
  · rw [decide_eq_true_eq]
    omega
  · intro i hi
    have hstop : index.offset (i + 1) ≤ index.offset c := index.offset_mono hi
    rw [decide_eq_decide]
    omega
  · intro i hi
    have hoffset := index.offset_mono hi
    rw [decide_eq_false_iff_not]
    omega
  · intro i hi
    have hstart : index.offset (c + 1) ≤ index.offset i := index.offset_mono hi
    rw [decide_eq_false_iff_not]
    omega

end Index

namespace ChunkTable

/-- The calls for some chunks, each with the chunk's place. -/
def calls (table : ChunkTable) (proxied : Bool) (places : List Nat) : List (Nat × Call) :=
  places.filterMap fun i => (table.addressAt? i).map fun address => (i, ⟨address, proxied⟩)

theorem calls_append (table : ChunkTable) (proxied : Bool) (first second : List Nat) :
    table.calls proxied (first ++ second) =
      table.calls proxied first ++ table.calls proxied second :=
  List.filterMap_append

end ChunkTable

namespace Session

variable {s t : Session} {n : Nat} {steps : List Step} {result : Except Error ByteArray}

/-- The chunks that a read took in, each by its place and by the call that brought it: a read that
succeeds has taken in what arrived and stands behind it. -/
def taken (steps : List Step) (result : Except Error ByteArray) (after : Session) :
    List (Nat × Call) :=
  match result with
  | .ok _ => (payloads steps).map fun arrived => (after.cursor - 1, arrived.1)
  | .error _ => []

/-- How far a session has begun with the chunks before and at its cursor. -/
structure Begun (s : Session) : Prop where
  /-- A skip is left over from the opening. -/
  skip : s.skip ≠ 0 → s.delivered = 0
  /-- What is in the window is the rest of a chunk of which some bytes were handed out. -/
  window : s.window.size ≠ 0 → 0 < s.delivered ∧
    ∃ i, s.cursor = i + 1 ∧ s.table.index.offset i < s.start + s.delivered

/-- Settling begins with nothing. -/
theorem Begun.settle (h : s.Begun) (hstands : s.Stands) : s.settle.Begun := by
  constructor
  · intro hskip
    rw [hstands.settle.2.1] at hskip
    rw [settle_delivered]
    exact h.skip hskip
  · intro hwindow
    rw [settle_window] at hwindow
    rw [hstands.settle_eq_self hwindow]
    exact h.window hwindow

/-- What a read met for the first time is what it took in, and it is at most one chunk. -/
theorem ReadRun.begun (h : ReadRun s n steps result t) (hstands : s.Stands) (hbegun : s.Begun) :
    t.Begun ∧ ∃ met : List Nat, met.length ≤ 1 ∧
      s.table.index.meeting s.start (t.start + t.delivered) =
        s.table.index.meeting s.start (s.start + s.delivered) ++ met ∧
      taken steps result t = s.table.calls s.proxied met := by
  cases h with
  | closed | nothing => exact ⟨hbegun, [], by simp, by simp, rfl⟩
  | overrun | ended | failed | refused =>
    exact ⟨hbegun.settle hstands, [], by simp, by simp, rfl⟩
  | buffered _ _ hneed =>
    obtain ⟨hwindow, hskip⟩ := hstands.of_need_buffered hneed
    obtain ⟨hdelivered, i, hcursor, hoffset⟩ := hbegun.window hwindow
    have hposition := hstands.position
    have hsize := s.window.size_take_fst n
    rw [hstands.settle_eq_self hwindow]
    rw [hcursor] at hposition
    refine ⟨⟨?_, ?_⟩, [], by simp, ?_, rfl⟩
    · intro hne
      exact absurd hskip hne
    · intro _
      simp only [deliver]
      exact ⟨by omega, i, hcursor, by omega⟩
    · simp only [deliver, List.append_nil]
      refine Index.meeting_of_begun hoffset ?_ ?_ ?_ <;> omega
  | fetched _ hn i size address fetching bytes loaded hneed hfetch haccept =>
    obtain ⟨-, -, hsize, haddress, hlt, hat⟩ := hstands.of_need_chunk hneed
    obtain ⟨-, hrest⟩ := hstands.accept hneed haccept
    obtain ⟨htable, hstart, hdelivered, hcursor, hskip⟩ := frame_of_accept haccept
    have hpiece := loaded.window.size_take_fst n
    have hinside : i < s.table.index.extents.size := by
      rw [hsize] at hlt
      exact Index.lt_of_sizeAt hlt
    have hnext := s.table.index.offset_succ i
    refine ⟨⟨?_, ?_⟩, [i], by simp, ?_, ?_⟩
    · intro hne
      exact absurd hskip hne
    · intro _
      simp only [deliver, htable, hstart, hdelivered]
      refine ⟨?_, i, hcursor, ?_⟩ <;> omega
    · simp only [deliver, hstart, hdelivered]
      -- either the chunk begins with the next byte, or the skip says that nothing was handed out
      have hfirst : s.table.index.offset i = s.start + s.delivered ∨
          s.start = s.start + s.delivered := by
        by_cases hzero : s.skip = 0
        · exact Or.inl (by omega)
        · have hnone := hbegun.skip hzero
          exact Or.inr (by omega)
      refine Index.meeting_of_next hinside hfirst ?_ ?_ ?_ ?_ <;> omega
    · have hpayloads : payloads
          (fetching ++ [.record (.bytesDelivered (loaded.deliver n).1.size)]) =
            [(⟨address, s.proxied⟩, bytes)] := by
        rw [payloads_append, Backend.fetchRetrying_payloads hfetch]
        rfl
      simp only [taken, hpayloads]
      simp [deliver, hcursor, ChunkTable.calls, haddress]

end Session

/-- The chunks that a read of a stream took in. -/
def Round.accepted (round : Round) : List (Nat × Call) :=
  Session.taken round.steps round.result round.after.session

namespace RangeStream

variable {first stream : RangeStream} {rounds : List Round} {stop n : Nat} {steps : List Step}

/-- The chunks taken in by the reads of a stream are those that hold a byte handed out. -/
theorem Reads.accepted (hreads : first.Reads rounds stream) (hwithin : first.Within stop)
    (hbegun : first.session.Begun) (hnew : first.session.delivered = 0) :
    stream.session.Begun ∧ (∀ round ∈ rounds, round.accepted.length ≤ 1) ∧
      rounds.flatMap Round.accepted = first.session.table.calls first.session.proxied
        (first.session.table.index.meeting first.session.start stream.offset) := by
  induction hreads with
  | nil =>
    refine ⟨hbegun, by simp, ?_⟩
    rw [offset, hnew, Nat.add_zero, Index.meeting_self]
    rfl
  | @snoc rounds stream n steps result next before read ih =>
    obtain ⟨hthere, hrounds, hall⟩ := ih
    obtain ⟨hplaced, htable, hproxied, hstart, -⟩ := before.within hwithin
    have hstep : next.session.Begun ∧ ∃ met : List Nat, met.length ≤ 1 ∧
        stream.session.table.index.meeting stream.session.start next.offset =
          stream.session.table.index.meeting stream.session.start stream.offset ++ met ∧
        Session.taken steps result next.session =
          stream.session.table.calls stream.session.proxied met := by
      rcases read_returns read with ⟨-, rfl, rfl, rfl⟩ | ⟨-, session, hrun, rfl⟩
      · exact ⟨hthere, [], by simp, by simp, rfl⟩
      · exact hrun.begun hplaced.placed.stands hthere
    obtain ⟨hbegun, met, hmet, hmeeting, htaken⟩ := hstep
    rw [htable, hstart] at hmeeting
    rw [htable, hproxied] at htaken
    refine ⟨hbegun, ?_, ?_⟩
    · intro round hround
      rcases List.mem_append.mp hround with hround | hround
      · exact hrounds round hround
      · rw [List.mem_singleton.mp hround, Round.accepted, htaken]
        exact Nat.le_trans (List.length_filterMap_le _ _) hmet
    · rw [List.flatMap_append, hall, hmeeting, ChunkTable.calls_append, List.flatMap_singleton,
        Round.accepted, htaken]

/-- A stream calls for nothing but what its session needs, and not once the range is used up. -/
theorem read_onlyCalls : (stream.read Program.backend n).OnlyCalls fun call =>
    stream.remaining ≠ some 0 ∧ ∃ i size address,
      stream.session.settle.need = .chunk i size address ∧
        call = ⟨address, stream.session.proxied⟩ := by
  rw [read]
  by_cases hused : stream.remaining = some 0
  · rw [if_pos hused]
    exact trivial
  · rw [if_neg hused]
    refine Program.OnlyCalls.bind (Session.read_onlyCalls.mono ?_) fun answer => ?_
    · rintro call ⟨-, -, hcall⟩
      exact ⟨hused, hcall⟩
    · obtain ⟨result, session⟩ := answer
      cases result <;> exact trivial

/-- Every call of a read, one that is given up included, is for the chunk that holds the next byte,
and is made where that byte lies in the range and nothing is left in the window. -/
theorem Within.of_call (h : stream.Within stop) {call : Call} {answer : Except Error ByteArray}
    {rest : Program (Except Error ByteArray × RangeStream)}
    (hreaches : (stream.read Program.backend n).Reaches steps rest)
    (hmem : .fetch call answer ∈ steps) :
    stream.offset < stop ∧ stream.session.window.size = 0 ∧
      ∃ i address, stream.session.table.addressAt? i = some address ∧
        call = ⟨address, stream.session.proxied⟩ ∧
        stream.session.table.index.offset i ≤ stream.offset ∧
        stream.offset < stream.session.table.index.offset (i + 1) := by
  obtain ⟨hused, i, size, address, hneed, hcall⟩ := read_onlyCalls.of_reaches hreaches hmem
  obtain ⟨-, hwindow, hsize, haddress, hlt, hat⟩ := h.placed.stands.of_need_chunk hneed
  have hnext := stream.session.table.index.offset_succ i
  have hinside : stream.offset < stream.session.table.index.offset (i + 1) := by
    rw [offset]
    omega
  refine ⟨?_, hwindow, i, address, haddress, hcall, ?_, hinside⟩
  · cases hremaining : stream.remaining with
    | none =>
      have hfile := stream.session.table.index.offset_le_sum (i + 1)
      rw [← h.unbounded hremaining, Session.fileSize]
      omega
    | some remaining =>
      have hbounded := h.bounded remaining hremaining
      have hne : remaining ≠ 0 := by
        rintro rfl
        exact hused hremaining
      omega
  · rw [offset]
    omega

end RangeStream

namespace Plan

variable {plan : Plan} {low high : Nat}

/-- The chunks that hold some byte of the file from `low` on and before `high`, in file order,
each by its place and by the call for it. -/
def chunksMeeting (plan : Plan) (low high : Nat) : List (Nat × Call) :=
  ((List.range plan.chunks.length).filter fun i =>
    max (plan.offset i) low < min (plan.offset (i + 1)) high).filterMap fun i =>
      plan.chunks[i]?.map fun chunk => (i, ⟨chunk.address, plan.proxied⟩)

/-- A chunk of a plan begins where the one before it ends. -/
theorem offset_succ {i : Nat} {chunk : ChunkRef} (hchunk : plan.chunks[i]? = some chunk) :
    plan.offset (i + 1) = plan.offset i + chunk.size.toNat := by
  rw [offset, List.take_add_one, List.sum_append, offset, sizes, List.getElem?_map,
    List.getElem?_map, hchunk]
  simp

/-- They are the chunks that are not empty and whose bytes meet the stretch. -/
theorem mem_chunksMeeting_iff {i : Nat} {call : Call} :
    (i, call) ∈ plan.chunksMeeting low high ↔ ∃ chunk, plan.chunks[i]? = some chunk ∧
      call = ⟨chunk.address, plan.proxied⟩ ∧ chunk.size ≠ 0 ∧
      max (plan.offset i) low < min (plan.offset i + chunk.size.toNat) high := by
  simp only [chunksMeeting, List.mem_filterMap, List.mem_filter, List.mem_range,
    Option.map_eq_some_iff, Prod.mk.injEq, decide_eq_true_eq]
  constructor
  · rintro ⟨_, ⟨-, hmeet⟩, chunk, hchunk, rfl, rfl⟩
    rw [offset_succ hchunk] at hmeet
    refine ⟨chunk, hchunk, rfl, ?_, hmeet⟩
    rintro hzero
    rw [hzero, UInt64.toNat_zero] at hmeet
    omega
  · rintro ⟨chunk, hchunk, rfl, -, hmeet⟩
    have hi := (List.getElem?_eq_some_iff.mp hchunk).1
    rw [← offset_succ hchunk] at hmeet
    exact ⟨i, ⟨hi, hmeet⟩, chunk, hchunk, rfl, rfl⟩

/-- They come in the order of the file, each of them once. -/
theorem chunksMeeting_pairwise :
    (plan.chunksMeeting low high).Pairwise fun first second => first.1 < second.1 := by
  refine List.Pairwise.filterMap _ ?_ (List.pairwise_lt_range.filter _)
  intro i j hij first hfirst second hsecond
  rw [Option.map_eq_some_iff] at hfirst hsecond
  obtain ⟨_, -, rfl⟩ := hfirst
  obtain ⟨_, -, rfl⟩ := hsecond
  exact hij

end Plan

/-- The table of a plan meets the chunks that the plan does. -/
theorem ChunkTable.Lists.calls_meeting {table : ChunkTable} {plan : Plan} (h : table.Lists plan)
    (low high : Nat) :
    table.calls plan.proxied (table.index.meeting low high) = plan.chunksMeeting low high := by
  have hlength : table.index.extents.size = plan.chunks.length := by
    rw [← Index.length_sizes, h.sizes_eq]
    simp [Plan.sizes]
  rw [calls, Index.meeting, Plan.chunksMeeting, hlength]
  simp only [h.offset_eq, addressAt?, h.addresses, List.getElem?_toArray, Plan.addresses,
    List.getElem?_map, Option.map_map]
  rfl

section

variable {plan : Plan} {link : Link} {range : ByteRange} {opened : Opened} {rounds : List Round}
  {stream : RangeStream}

/-- A stream that was opened new has begun with nothing. -/
private theorem Link.begun_of_openStream (h : link.openStream range = .ok stream)
    (hlists : link.table.Lists plan) (hfits : plan.Fits) :
    stream.session.Begun ∧ stream.session.delivered = 0 := by
  obtain ⟨-, -, -, hstart, hoffset, hwindow⟩ := Link.openStream_within h hlists hfits
  have hnew : stream.session.delivered = 0 := by
    rw [RangeStream.offset] at hoffset
    omega
  refine ⟨⟨fun _ => hnew, fun hsize => ?_⟩, hnew⟩
  rw [hwindow, Window.size_empty] at hsize
  exact absurd rfl hsize

/-- The reads of an opened range take in the chunks that hold a byte handed out, each once and in
the order of the file. A read takes in at most one of them. Every call, one of a read that is given
up included, is for the chunk that holds the next byte of the range, and is made where all that was
fetched before is handed out. -/
theorem Plan.fetched_exactly (hfits : plan.Fits) :
    ∃ link, Link.ofPlan plan = .ok link ∧
      ∀ policy verify range opening opened,
        (Link.openRange Program.backend { link with policy, verify } range).Returns opening
          (.ok opened) →
        opening = [.record .sessionOpened] ∧
        ∀ rounds stream, opened.stream.Reads rounds stream →
          stream.session.position.toNat = range.start.toNat + (delivered rounds).size ∧
          rounds.flatMap Round.accepted = plan.chunksMeeting range.start.toNat
            (range.start.toNat + (delivered rounds).size) ∧
          (∀ round ∈ rounds, round.accepted.length ≤ 1) ∧
          ∀ n steps rest, (stream.read Program.backend n).Reaches steps rest →
            ∀ call answer, .fetch call answer ∈ steps →
              (delivered rounds).size < range.effectiveLength link.size ∧
              stream.session.window.size = 0 ∧
              ∃ i chunk, plan.chunks[i]? = some chunk ∧ call = ⟨chunk.address, plan.proxied⟩ ∧
                plan.offset i ≤ stream.session.position.toNat ∧
                stream.session.position.toNat < plan.offset i + chunk.size.toNat := by
  obtain ⟨link, hlink, hlists, hproxied⟩ := Link.exists_ofPlan hfits
  refine ⟨link, hlink, ?_⟩
  intro policy verify range opening opened hopen
  obtain ⟨hstream, hopening⟩ := Link.openRange_returns hopen
  refine ⟨hopening, ?_⟩
  intro rounds stream hreads
  obtain ⟨hwithin, htable, hroute, hstart, hoffset, -⟩ :=
    Link.openStream_within hstream hlists hfits
  obtain ⟨hbegun, hnew⟩ := Link.begun_of_openStream hstream hlists hfits
  obtain ⟨-, hrounds, hall⟩ := hreads.accepted hwithin hbegun hnew
  obtain ⟨hthere, hsame, hrouted, -, hat⟩ := hreads.within hwithin
  rw [hoffset] at hat
  have hposition : stream.session.position.toNat =
      range.start.toNat + (delivered rounds).size := by
    have hle := Nat.le_trans hthere.offset_le hthere.fits
    rw [Session.position, UInt64.toNat_ofNat', ← RangeStream.offset, hat]
    rw [hat, Size.limit] at hle
    omega
  -- chunks of the table and chunks of the plan begin at the same places
  rw [htable, hroute, hproxied, hlists.calls_meeting, hstart, hat] at hall
  refine ⟨hposition, hall, hrounds, ?_⟩
  intro n steps rest hreaches call answer hmem
  obtain ⟨hlt, hwindow, i, address, haddress, hcall, hbegin, hend⟩ :=
    hthere.of_call hreaches hmem
  rw [hat] at hlt hbegin hend
  rw [hsame, htable] at haddress hbegin hend
  obtain ⟨chunk, hchunk, rfl, -⟩ := hlists.getElem?_chunks haddress
  rw [hrouted, hroute, hproxied] at hcall
  rw [hlists.offset_eq] at hbegin hend
  rw [Plan.offset_succ hchunk] at hend
  rw [hposition]
  exact ⟨Nat.lt_of_add_lt_add_left hlt, hwindow, i, chunk, hchunk, hcall, hbegin, hend⟩

end

/-- The range after one of its two bytes and a read that was cancelled. -/
def threeBytesBeyond : RangeStream :=
  ⟨{ threeBytesLast.session with cursor := 2 }, none⟩

/-- After a cancelled read and one that brought a byte of the first chunk, that chunk is taken in;
the next call passes the empty chunk. -/
theorem fetched_exactly_threeBytes :
    threeBytes.Fits ∧ threeBytesTail.stream.Reads threeBytesRounds threeBytesLast ∧
      threeBytesRounds.flatMap Round.accepted = threeBytes.chunksMeeting 1 2 ∧
      threeBytesRounds.flatMap Round.accepted = [(0, ⟨"a", false⟩)] ∧
      (threeBytesLast.read Program.backend 5).Returns
        [.now 0, .fetch ⟨"c", false⟩ (.error .cancelled)]
        (.error .cancelled, threeBytesBeyond) ∧
      ∃ i chunk, threeBytes.chunks[i]? = some chunk ∧
        (⟨"c", false⟩ : Call) = ⟨chunk.address, false⟩ ∧ threeBytes.offset i ≤ 2 ∧
        2 < threeBytes.offset i + chunk.size.toNat := by
  have hfits : threeBytes.Fits := by decide
  have hnext : (threeBytesLast.read Program.backend 5).Returns
      [.now 0, .fetch ⟨"c", false⟩ (.error .cancelled)]
      (.error .cancelled, threeBytesBeyond) := by
    apply Program.returns_of_follow
    with_unfolding_all rfl
  obtain ⟨link, hlink, hopened⟩ := Plan.fetched_exactly hfits
  rw [threeBytes_ofPlan, Except.ok.injEq] at hlink
  subst hlink
  obtain ⟨-, hreads⟩ := hopened .direct true ⟨1, none⟩ _ _ threeBytes_openRange
  obtain ⟨hposition, hall, -, hcalls⟩ := hreads _ _ threeBytes_reads
  obtain ⟨-, -, hchunk⟩ := hcalls 5 _ _ hnext ⟨"c", false⟩ (.error .cancelled) (by simp)
  exact ⟨hfits, threeBytes_reads, hall, rfl, hnext, hchunk⟩

end ChunkedFile
