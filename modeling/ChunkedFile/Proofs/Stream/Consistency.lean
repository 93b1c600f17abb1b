import ChunkedFile.Proofs.Index.Location
import ChunkedFile.Proofs.Stream.Admission

/-!
# Sessions stay consistent

What the fields of a session say of each other: the cursor, the skip, the window and the bytes
handed out tell one place in the file of a plan. A session that is opened or placed on the plan is
consistent, a read keeps it so in whichever way it ends, and a close keeps all but the place, which
a closed session has no more use for. Nothing that a read relies on can then fail.
-/

namespace ChunkedFile

/-- A table has an extent and an address for each chunk of the plan that it lists. -/
theorem ChunkTable.Lists.counts {table : ChunkTable} {plan : Plan} (h : table.Lists plan) :
    table.index.size = plan.chunks.length ∧ table.addresses.size = plan.chunks.length := by
  constructor
  · rw [h.index, Index.size, Index.size_ofSizes, Plan.sizes, List.length_map]
  · rw [h.addresses, List.size_toArray, Plan.addresses, List.length_map]

namespace Session

variable {s t first : Session} {plan : Plan} {n : Nat} {op : Operation} {steps : List Step}
  {answer : Answer} {result : Except Error ByteArray} {verdict : Except Error Unit}
  {turns : List Turn}

/-- A session on the file of a plan whose fields tell one place in it. -/
structure Consistent (s : Session) (plan : Plan) : Prop where
  lists : s.table.Lists plan
  extents : s.table.index.size = plan.chunks.length
  addresses : s.table.addresses.size = plan.chunks.length
  /-- A skip lies inside the chunk at the cursor, and then nothing is in the window. -/
  skip : s.skip ≠ 0 →
    s.window.size = 0 ∧ ∃ e, s.table.index.get? s.cursor = some e ∧ s.skip < e.size
  /-- What was handed out and what is in the window end where the cursor stands. -/
  position : s.closed = false →
    s.start + s.delivered + s.window.size = plan.offset s.cursor + s.skip
  /-- No more was handed out than there is. -/
  inside : s.start + s.delivered ≤ s.table.total

/-- A session that stands where its counters tell is consistent. -/
theorem Stands.consistent (h : s.Stands) (hlists : s.table.Lists plan) (hfits : plan.Fits) :
    s.Consistent plan where
  lists := hlists
  extents := hlists.counts.1
  addresses := hlists.counts.2
  skip := by
    intro hskip
    obtain ⟨hwindow, hlt⟩ := h.skip hskip
    exact ⟨hwindow, Index.lt_sizeAt_iff.mp hlt⟩
  position := by
    intro _
    rw [← hlists.offset_eq]
    exact h.position
  inside := by
    have hle := h.position_le
    rwa [fileSize, hlists.sizes_eq, ← Plan.exactSize, ← hlists.total_eq hfits] at hle

namespace Consistent

/-- An open consistent session stands where its counters tell. -/
theorem stands (h : s.Consistent plan) (hopen : s.closed = false) : s.Stands where
  skip := by
    intro hskip
    obtain ⟨hwindow, hchunk⟩ := h.skip hskip
    exact ⟨hwindow, Index.lt_sizeAt_iff.mpr hchunk⟩
  position := by
    rw [h.lists.offset_eq]
    exact h.position hopen

/-- A read keeps a session consistent, however it ends. -/
theorem read (h : s.Consistent plan) (hfits : plan.Fits) (hread : ReadRun s n steps result t) :
    t.Consistent plan := by
  have htable := hread.advanced.table
  cases hclosed : s.closed with
  | false =>
    have hlists : t.table.Lists plan := by
      rw [htable]
      exact h.lists
    exact ((h.stands hclosed).read hread).consistent hlists hfits
  | true =>
    -- a closed session stands nowhere, but a read leaves it as it is
    rw [(hread.of_closed hclosed).2]
    exact h

/-- A close keeps a session consistent. -/
theorem close (h : s.Consistent plan) (hclose : CloseRun s steps verdict t) :
    t.Consistent plan := by
  cases hclose with
  | again => exact h
  | first hopen =>
    exact {
      lists := h.lists
      extents := h.extents
      addresses := h.addresses
      skip := fun hskip => ⟨rfl, (h.skip hskip).2⟩
      position := fun hclosed => absurd hclosed Bool.true_eq_false.mp
      inside := h.inside }

/-- A call keeps a session consistent. -/
theorem perform (h : s.Consistent plan) (hfits : plan.Fits)
    (hcall : (s.perform Program.backend op).Returns steps (answer, t)) : t.Consistent plan := by
  cases op with
  | read n =>
    obtain ⟨result, -, hread⟩ := perform_read_returns hcall
    exact h.read hfits hread
  | close =>
    obtain ⟨verdict, -, hclose⟩ := perform_close_returns hcall
    exact h.close hclose

end Consistent

/-- Calls keep a session consistent. -/
theorem Turns.consistent (h : first.Turns turns s) (hfirst : first.Consistent plan)
    (hfits : plan.Fits) : s.Consistent plan := by
  induction h with
  | nil => exact hfirst
  | snoc before call ih => exact ih.perform hfits call

/-- What a read of a session relies on once the session is settled: the skip does not run past the
last chunk, the chunk that is needed has an address and a recorded size, and fewer bytes are dropped
from what is taken in for it than there are. -/
structure ReadsInBounds (s : Session) : Prop where
  skip : s.settle.need ≠ .overrun
  chunk : ∀ i size address, s.settle.need = .chunk i size address →
    s.table.addresses[i]? = some address ∧ ∃ e, s.table.index.get? i = some e ∧ e.size = size
  payload : ∀ i size address bytes t, s.settle.need = .chunk i size address →
    s.settle.accept i size bytes = .ok t → s.settle.skip < bytes.size

/-- A session that stands where its counters tell is read in bounds. -/
theorem Stands.readsInBounds (h : s.Stands) : s.ReadsInBounds where
  skip := h.need_ne_overrun
  chunk := by
    intro i size address hneed
    obtain ⟨-, -, rfl, haddress, hlt, -⟩ := h.of_need_chunk hneed
    have hi := Index.lt_of_sizeAt hlt
    exact ⟨haddress, _, Index.get?_eq_some_iff.mpr ⟨hi, rfl⟩, (Index.sizeAt_eq hi).symm⟩
  payload := by
    intro i size address bytes t hneed haccept
    obtain ⟨-, -, -, -, hlt, -⟩ := h.of_need_chunk hneed
    rwa [(accept_eq_ok_iff.mp haccept).1, h.settle.2.1]

/-- A read of a consistent session never finds that a skip or a range does not fit the file. -/
theorem Consistent.ne_range (h : s.Consistent plan) (hread : ReadRun s n steps result t)
    (fault : RangeFault) : result ≠ .error (.range fault) := by
  cases hclosed : s.closed with
  | false =>
    rintro rfl
    exact hread.failsRead (h.stands hclosed) hclosed
  | true =>
    rw [(hread.of_closed hclosed).1]
    simp

end Session

/-- A read takes what it brings from the rest of the range, and there is as much. -/
theorem RangeStream.remaining_of_read {stream next : RangeStream} {left n : Nat}
    {steps : List Step} {result : Except Error ByteArray} (hleft : stream.remaining = some left)
    (hread : (stream.read Program.backend n).Returns steps (result, next)) :
    ∃ rest, next.remaining = some rest ∧ rest + (bytesOf result).size = left := by
  rcases read_returns hread with ⟨-, -, rfl, rfl⟩ | ⟨-, session, hrun, rfl⟩
  · exact ⟨left, hleft, rfl⟩
  · have hsize := hrun.advanced.size_le
    simp only [limit, hleft] at hsize
    refine ⟨left - (bytesOf result).size, ?_, by omega⟩
    simp only [consume, hleft, Option.map_some]

/-- The sessions on a plan's file of which nothing was read yet: new ones and those of its link,
placed and configured any number of times. -/
inductive Plan.Serves (plan : Plan) : Session → Prop
  | new {s : Session} (hnew : Session.ofPlan plan = .ok s) : plan.Serves s
  | opened {link : Link} {range : ByteRange} {steps : List Step} {opened : Opened}
      (hlink : Link.ofPlan plan = .ok link) (policy verify)
      (hopened : (Link.openRange Program.backend { link with policy, verify } range).Returns steps
        (.ok opened)) : plan.Serves opened.stream.session
  | skipTo {s t : Session} {start : Nat} (before : plan.Serves s) (hskip : s.skipTo start = .ok t) :
      plan.Serves t
  | configured {s : Session} (before : plan.Serves s) (policy proxied verifier) :
      plan.Serves { s with policy, proxied, verifier }

namespace Plan

variable {plan : Plan} {s first : Session} {turns : List Turn}

/-- A session on a plan's file is built, on the chunks of the plan, whose sizes have a sum. -/
theorem Serves.built (h : plan.Serves s) : s.Built ∧ s.table.Lists plan ∧ plan.Fits := by
  induction h with
  | new hnew =>
    obtain ⟨table, verifier, htable, rfl⟩ := Session.eq_of_ofPlan hnew
    obtain ⟨hfits, hlists⟩ := ChunkTable.of_ofPlan htable
    exact ⟨Session.built_ofPlan hnew, hlists, hfits⟩
  | opened hlink policy verify hopened =>
    obtain ⟨hfits, hlists, -⟩ := Link.of_ofPlan hlink
    obtain ⟨hstream, -⟩ := Link.openRange_returns hopened
    obtain ⟨-, htable, -⟩ := Link.openStream_within hstream hlists hfits
    rw [htable]
    exact ⟨Link.openStream_built hstream hlists, hlists, hfits⟩
  | skipTo before hskip ih =>
    obtain ⟨hbuilt, hlists, hfits⟩ := ih
    refine ⟨hbuilt.skipTo hskip, ?_, hfits⟩
    rw [Session.of_skipTo hskip]
    exact hlists
  | configured before policy proxied verifier ih =>
    exact ⟨ih.1.configured policy proxied verifier, ih.2⟩

/-- Whatever is read of a session on a plan's file and whenever it is closed, it stays consistent:
no read finds that a skip runs past the end, asks for a chunk without an address or drops more bytes
than there are, and no stream takes more from its range than is left of it. -/
theorem sessions_consistent (hfirst : plan.Serves first) (hturns : first.Turns turns s) :
    s.Consistent plan ∧ (s.closed = false → s.ReadsInBounds) ∧
    (∀ n steps result t, (s.read Program.backend n).Returns steps (result, t) →
      ∀ fault, result ≠ .error (.range fault)) ∧
    ∀ left n steps result next,
      (RangeStream.read Program.backend ⟨s, some left⟩ n).Returns steps (result, next) →
      ∃ rest, next.remaining = some rest ∧ rest + (bytesOf result).size = left := by
  obtain ⟨hbuilt, hlists, hfits⟩ := hfirst.built
  have hconsistent := hturns.consistent (hbuilt.fresh.stands.consistent hlists hfits) hfits
  refine ⟨hconsistent, fun hopen => (hconsistent.stands hopen).readsInBounds, ?_, ?_⟩
  · intro n steps result t hread
    exact hconsistent.ne_range (Session.read_returns hread)
  · intro left n steps result next hread
    exact RangeStream.remaining_of_read rfl hread

end Plan

/-- Two reads of the session behind the first byte of three: a cancelled one, and one that brings a
byte. -/
def threeBytesCalls : List Turn :=
  [⟨.read 5, [.now 0, .fetch ⟨"a", false⟩ (.error .cancelled)], .read (.error .cancelled),
      threeBytesTail.stream.session⟩,
    ⟨.read 5, [.now 0, .fetch ⟨"a", false⟩ (.ok ⟨#[7, 8]⟩), .now 0, .record (.chunkFetched 2 0),
        .record (.bytesDelivered 1)], .read (.ok ⟨#[8]⟩), threeBytesLast.session⟩]

/-- The session of the range serves the plan. -/
theorem threeBytes_serves : threeBytes.Serves threeBytesTail.stream.session :=
  .opened threeBytes_ofPlan .direct true threeBytes_openRange

theorem threeBytes_turns :
    threeBytesTail.stream.session.Turns threeBytesCalls threeBytesLast.session := by
  have hcancelled : (threeBytesTail.stream.session.perform Program.backend (.read 5)).Returns
      [.now 0, .fetch ⟨"a", false⟩ (.error .cancelled)]
      (.read (.error .cancelled), threeBytesTail.stream.session) := by
    apply Program.returns_of_follow
    with_unfolding_all rfl
  have harrived : (threeBytesTail.stream.session.perform Program.backend (.read 5)).Returns
      [.now 0, .fetch ⟨"a", false⟩ (.ok ⟨#[7, 8]⟩), .now 0, .record (.chunkFetched 2 0),
        .record (.bytesDelivered 1)] (.read (.ok ⟨#[8]⟩), threeBytesLast.session) := by
    apply Program.returns_of_follow
    with_unfolding_all rfl
  exact .snoc (.snoc .nil hcancelled) harrived

/-- After its first byte the session is placed on the empty chunk, with nothing in its window, and
is read in bounds. -/
theorem sessions_consistent_threeBytes :
    threeBytes.Serves threeBytesTail.stream.session ∧
      threeBytesTail.stream.session.Turns threeBytesCalls threeBytesLast.session ∧
      threeBytesLast.session.Consistent threeBytes ∧
      1 + 1 + threeBytesLast.session.window.size = threeBytes.offset 1 ∧
      threeBytesLast.session.ReadsInBounds := by
  obtain ⟨hconsistent, hbounds, -, -⟩ :=
    Plan.sessions_consistent threeBytes_serves threeBytes_turns
  exact ⟨threeBytes_serves, threeBytes_turns, hconsistent, hconsistent.position rfl, hbounds rfl⟩

end ChunkedFile
