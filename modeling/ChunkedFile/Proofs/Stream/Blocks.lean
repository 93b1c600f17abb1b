import Mathlib.Algebra.BigOperators.Group.List.Basic
import ChunkedFile.Proofs.Session.Serialisation
import ChunkedFile.Proofs.Stream.Laziness

/-!
# Streams in blocks

A stream may be set up on any open session, also on one of which something was read before, and may
ask for more than the file has. It ends where its range or its file does, whichever comes first.
Taken in blocks it is read until a read brings nothing or fails: `BlockRun` has no other end, so the
number of reads that are made at most is never what ends it.
-/

namespace ChunkedFile

namespace ChunkTable.Holds

variable {table : ChunkTable} {payload : String → ByteArray} {file : ByteArray}

/-- A file that a table holds has all the bytes before each of its chunks. -/
theorem offset_le_size (h : table.Holds payload file) {i : Nat}
    (hi : i ≤ table.index.extents.size) : table.index.offset i ≤ file.size := by
  induction i with
  | zero => simp
  | succ i ih =>
    have hbefore := ih (by omega)
    rw [Index.offset_succ]
    by_cases hsize : table.index.sizeAt i = 0
    · omega
    · have hlt : i < table.addresses.size := by
        rw [table.size_eq]
        exact hi
      obtain ⟨hstored, hextract⟩ := h i _ (Array.getElem?_eq_getElem hlt) hsize
      have hsizes := congrArg ByteArray.size hextract
      rw [ByteArray.size_extract] at hsizes
      omega

/-- A file that a table holds is not shorter than the table says. -/
theorem sum_le_size (h : table.Holds payload file) : table.index.sizes.sum ≤ file.size := by
  rw [← table.index.offset_of_size_le (Nat.le_refl _)]
  exact h.offset_le_size (Nat.le_refl _)

end ChunkTable.Holds

namespace Session

variable {s t first : Session} {n : Nat} {steps : List Step} {result : Except Error ByteArray}
  {turns : List Turn}

/-- The bytes that can still be handed out are those of the file from the next one on, and those
still to be dropped. -/
theorem Stands.unread_eq (h : s.Stands) :
    s.start + s.delivered + s.unread = s.fileSize + s.skip := by
  have hposition := h.position
  have hsplit : s.table.index.offset s.cursor + s.table.index.bytesFrom s.cursor = s.fileSize := by
    have hfold (extents : List Extent) :
        extents.foldr (fun e total => e.size + total) 0 = (extents.map Extent.size).sum := by
      induction extents with
      | nil => rfl
      | cons e extents ih => simp [ih]
    rw [Index.bytesFrom, hfold, List.map_drop, Index.offset, fileSize, Index.sizes,
      List.sum_take_add_sum_drop]
  rw [unread]
  omega

/-- What a read brings lies in one chunk. It is all that was asked for, or it is the end of the
chunk. -/
theorem ReadRun.inside (h : ReadRun s n steps result t) (hstands : s.Stands) (hbegun : s.Begun)
    (hsome : (bytesOf result).size ≠ 0) :
    ∃ c, s.table.index.offset c ≤ s.start + s.delivered ∧
      s.start + s.delivered + (bytesOf result).size ≤ s.table.index.offset (c + 1) ∧
      ((bytesOf result).size < n →
        s.start + s.delivered + (bytesOf result).size = s.table.index.offset (c + 1)) := by
  cases h with
  | closed | nothing | overrun | ended | failed | refused => exact absurd rfl hsome
  | buffered _ _ hneed =>
    obtain ⟨hwindow, hskip⟩ := hstands.of_need_buffered hneed
    obtain ⟨-, c, hcursor, hoffset⟩ := hbegun.window hwindow
    have hposition := hstands.position
    have hsize := s.window.size_take_fst n
    rw [hcursor, hskip] at hposition
    rw [hstands.settle_eq_self hwindow]
    simp only [bytesOf, deliver]
    exact ⟨c, by omega, by omega, by omega⟩
  | fetched _ _ i size address fetching bytes loaded hneed hfetch haccept =>
    obtain ⟨-, -, hsize, -, hlt, hat⟩ := hstands.of_need_chunk hneed
    obtain ⟨-, hrest⟩ := hstands.accept hneed haccept
    have hpiece := loaded.window.size_take_fst n
    have hnext := s.table.index.offset_succ i
    simp only [bytesOf, deliver]
    exact ⟨i, by omega, by omega, by omega⟩

/-- An open session in the course of its reads. -/
structure Live (s : Session) : Prop where
  isOpen : s.closed = false
  stands : s.Stands
  begun : s.Begun

/-- A session that was just opened is live. -/
theorem Built.live (h : s.Built) : s.Live := by
  have hfresh := h.fresh
  refine ⟨hfresh.isOpen, hfresh.stands, fun _ => hfresh.delivered, fun hwindow => ?_⟩
  rw [hfresh.window] at hwindow
  exact absurd rfl hwindow

/-- Reads leave a session live. -/
theorem Live.read (h : s.Live) (hread : ReadRun s n steps result t) : t.Live :=
  ⟨hread.advanced.closed.trans h.isOpen, h.stands.read hread, (hread.begun h.stands h.begun).1⟩

/-- A session that was not closed is live. -/
theorem Turns.live (h : first.Turns turns t) (hlive : first.Live) (hopen : t.closed = false) :
    t.Live := by
  induction h with
  | nil => exact hlive
  | @snoc turns s t op steps answer before call ih =>
    have hnot : ¬ (s.closed = true ∨ op = .close) := by
      rw [← closed_of_perform call, hopen]
      exact Bool.false_ne_true
    cases op with
    | read n =>
      obtain ⟨result, rfl, hread⟩ := perform_read_returns call
      exact (ih (by simpa using hnot)).read hread
    | close => exact absurd (Or.inr rfl) hnot

end Session

namespace RangeStream

variable {stream next after : RangeStream} {n size fuel : Nat} {steps : List Step}
  {result : Except Error ByteArray} {block file : ByteArray} {blocks : List ByteArray}
  {e : Option Error} {payload : String → ByteArray}

/-- So do reads of a stream. -/
theorem live_of_read (h : stream.session.Live)
    (hread : (stream.read Program.backend n).Returns steps (result, next)) : next.session.Live := by
  rcases read_returns hread with ⟨-, -, -, rfl⟩ | ⟨-, session, hrun, rfl⟩
  · exact h
  · exact h.read hrun

/-- What a read brings lies in one chunk, and it is less than was asked for only where the chunk
ends or the stream. -/
theorem block_of_read (h : stream.session.Live)
    (hread : (stream.read Program.backend n).Returns steps (.ok block, next))
    (hsome : block.size ≠ 0) :
    ∃ c, stream.session.table.index.offset c ≤ stream.offset ∧
      stream.offset + block.size ≤ stream.session.table.index.offset (c + 1) ∧
      (block.size < n → stream.offset + block.size = stream.session.table.index.offset (c + 1) ∨
        stream.offset + block.size = stream.stop) := by
  rcases read_returns hread with ⟨-, -, hnone, -⟩ | ⟨-, session, hrun, -⟩
  · rw [Except.ok.injEq] at hnone
    exact absurd (congrArg ByteArray.size hnone) hsome
  · obtain ⟨c, hbegin, hend, hshort⟩ := hrun.inside h.stands h.begun hsome
    refine ⟨c, hbegin, hend, fun hlt => ?_⟩
    by_cases hlimit : block.size < stream.limit n
    · exact Or.inl (hshort hlimit)
    · -- the read was cut off by the range
      have hinside : stream.offset + block.size ≤ stream.session.fileSize :=
        Nat.le_trans hend (stream.session.table.index.offset_le_sum (c + 1))
      have hsize : block.size ≤ stream.limit n := hrun.advanced.size_le
      refine Or.inr ?_
      rw [limit] at hlimit hsize
      rw [stop]
      cases hremaining : stream.remaining with
      | none =>
        simp only [hremaining] at hlimit
        omega
      | some remaining =>
        simp only [hremaining] at hlimit hsize
        simp only
        omega

/-- The runs of a stream in blocks of at most `size` bytes: the requests, the blocks, the error that
ended them if one did, and the stream left behind. -/
inductive BlockRun (size : Nat) :
    RangeStream → List Step → List ByteArray → Option Error → RangeStream → Prop
  | ended {stream after : RangeStream} {steps : List Step} {block : ByteArray}
      (hread : (stream.read Program.backend size).Returns steps (.ok block, after))
      (hnone : block.size = 0) : BlockRun size stream steps [] none after
  | failed {stream after : RangeStream} {steps : List Step} {e : Error}
      (hread : (stream.read Program.backend size).Returns steps (.error e, after)) :
      BlockRun size stream steps [] (some e) after
  | block {stream next after : RangeStream} {first rest : List Step} {block : ByteArray}
      {blocks : List ByteArray} {e : Option Error}
      (hread : (stream.read Program.backend size).Returns first (.ok block, next))
      (hsome : block.size ≠ 0) (others : BlockRun size next rest blocks e after) :
      BlockRun size stream (first ++ rest) (block :: blocks) e after

/-- Where as many reads may be made as there are bytes, and one more, they never run out. -/
theorem blocksFrom_returns (hlive : stream.session.Live)
    (hfuel : stream.session.fileSize < stream.offset + fuel)
    (h : (stream.blocksFrom Program.backend size fuel).Returns steps (blocks, e, after)) :
    BlockRun size stream steps blocks e after := by
  -- each block brings the stream nearer to the end of the file by at least as much as it costs
  induction fuel generalizing stream steps blocks with
  | zero =>
    have hle : stream.offset ≤ stream.session.fileSize := hlive.stands.position_le
    omega
  | succ fuel ih =>
    rw [blocksFrom, Program.returns_bind_iff] at h
    obtain ⟨first, ⟨result, next⟩, rest, hread, hrest, rfl⟩ := h
    cases result with
    | error cause =>
      simp only [Program.returns_pure_iff, Prod.mk.injEq] at hrest
      obtain ⟨rfl, rfl, rfl, rfl⟩ := hrest
      rw [List.append_nil]
      exact .failed hread
    | ok block =>
      by_cases hsize : block.size = 0
      · simp only [hsize, if_true, Program.returns_pure_iff, Prod.mk.injEq] at hrest
        obtain ⟨rfl, rfl, rfl, rfl⟩ := hrest
        rw [List.append_nil]
        exact .ended hread hsize
      · simp only [hsize, if_false, Program.returns_bind_iff, Program.returns_pure_iff,
          Prod.mk.injEq] at hrest
        obtain ⟨later, ⟨others, last, stream'⟩, _, hlater, ⟨rfl, rfl, rfl, rfl⟩, rfl⟩ := hrest
        obtain ⟨htable, hoffset, -⟩ := next_of_read hread
        rw [List.append_nil]
        refine .block hread hsize (ih (live_of_read hlive hread) ?_ hlater)
        rw [Session.fileSize, htable, ← Session.fileSize, hoffset, bytesOf]
        omega

/-- There are always enough reads. -/
theorem lt_offset_add_enough (hstands : stream.session.Stands) :
    stream.session.fileSize < stream.offset + stream.enough := by
  have hunread := hstands.unread_eq
  rw [enough, offset]
  omega

namespace BlockRun

/-- Each block holds some bytes, and no more than a block may; it lies in one chunk, and is short of
the size of a block only where the chunk ends or the stream. -/
theorem each (h : BlockRun size stream steps blocks e after) (hlive : stream.session.Live)
    {before behind : List ByteArray} (hblocks : blocks = before ++ block :: behind) :
    block.size ≠ 0 ∧ block.size ≤ size ∧ ∃ c,
      stream.session.table.index.offset c ≤ stream.offset + (joined before).size ∧
      stream.offset + (joined before).size + block.size ≤
        stream.session.table.index.offset (c + 1) ∧
      (block.size < size → stream.offset + (joined before).size + block.size =
          stream.session.table.index.offset (c + 1) ∨
        stream.offset + (joined before).size + block.size = stream.stop) := by
  induction h generalizing before with
  | ended | failed => simp at hblocks
  | @block stream next after first rest head blocks e hread hsome others ih =>
    obtain ⟨htable, hoffset, hstop, hle⟩ := next_of_read hread
    cases before with
    | nil =>
      obtain ⟨rfl, -⟩ := List.cons.inj hblocks
      exact ⟨hsome, hle, block_of_read hlive hread hsome⟩
    | cons piece before =>
      obtain ⟨rfl, hrest⟩ := List.cons.inj hblocks
      have hlater := ih (live_of_read hlive hread) hrest
      rw [htable, hstop, hoffset, bytesOf, Nat.add_assoc _ head.size, ← ByteArray.size_append,
        ← joined_cons] at hlater
      exact hlater

/-- There are no more blocks than bytes. -/
theorem offset_add_length_le (h : BlockRun size stream steps blocks e after)
    (hlive : stream.session.Live) : stream.offset + blocks.length ≤ stream.stop := by
  induction h with
  | ended | failed => exact offset_le_stop hlive.stands
  | @block stream next after first rest head blocks e hread hsome others ih =>
    obtain ⟨-, hoffset, hstop, -⟩ := next_of_read hread
    have hothers := ih (live_of_read hlive hread)
    rw [hoffset, hstop, bytesOf] at hothers
    rw [List.length_cons]
    omega

/-- The blocks come to the end of the stream exactly where no read fails. -/
theorem offset_add_le (h : BlockRun size stream steps blocks e after)
    (hlive : stream.session.Live) (hsize : size ≠ 0) :
    stream.offset + (joined blocks).size ≤ stream.stop ∧
      (e = none ↔ stream.offset + (joined blocks).size = stream.stop) := by
  induction h with
  | @ended stream steps block after hread hnone =>
    have hend := (eq_ok_empty_iff hlive.stands hlive.isOpen hsize hread).mp (by
      rw [ByteArray.size_eq_zero_iff.mp hnone])
    simp [hend]
  | @failed stream steps e after hread =>
    have hle := offset_le_stop hlive.stands
    have hend := (eq_ok_empty_iff hlive.stands hlive.isOpen hsize hread).not.mp (by simp)
    simp [hle, hend]
  | @block stream next after first rest head blocks e hread hsome others ih =>
    obtain ⟨-, hoffset, hstop, -⟩ := next_of_read hread
    have hothers := ih (live_of_read hlive hread)
    rw [hoffset, hstop, bytesOf, Nat.add_assoc, ← ByteArray.size_append, ← joined_cons] at hothers
    exact hothers

/-- The blocks of an honest store are the file from where the stream stood. -/
theorem shows (h : BlockRun size stream steps blocks e after) (hlive : stream.session.Live)
    (hholds : stream.session.table.Holds payload file) (hshows : stream.session.Shows file)
    (hhonest : ∀ step ∈ steps, step.Honest payload) :
    joined blocks = file.extract stream.offset (stream.offset + (joined blocks).size) := by
  induction h with
  | ended | failed => simp
  | @block stream next after first rest head blocks e hread hsome others ih =>
    obtain ⟨htable, hoffset, -⟩ := next_of_read hread
    have hfirst : ∀ step ∈ first, step.Honest payload := fun step hstep =>
      hhonest step (List.mem_append_left _ hstep)
    have hbrought : next.session.Shows file ∧
        head = file.extract stream.offset (stream.offset + head.size) := by
      rcases read_returns hread with ⟨-, -, hempty, -⟩ | ⟨-, session, hrun, rfl⟩
      · rw [Except.ok.injEq] at hempty
        exact absurd (congrArg ByteArray.size hempty) hsome
      · exact hrun.shows hlive.stands hholds hshows hfirst
    have hothers := ih (live_of_read hlive hread) (by rw [htable]; exact hholds) hbrought.1
      fun step hstep => hhonest step (List.mem_append_right _ hstep)
    rw [hoffset, bytesOf, Nat.add_assoc] at hothers
    rw [joined_cons, ByteArray.size_append,
      ByteArray.extract_eq_extract_append_extract (stream.offset + head.size) (by omega) (by omega),
      ← hbrought.2, ← hothers]

end BlockRun

end RangeStream

end ChunkedFile
