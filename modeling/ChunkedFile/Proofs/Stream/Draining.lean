import ChunkedFile.Proofs.Hash.Streaming
import ChunkedFile.Proofs.Run.Outcomes
import ChunkedFile.Proofs.Run.Silence
import ChunkedFile.Proofs.Stream.Blocks

/-!
# Streams cut differently

Bytes that have been fetched are handed out without asking the store, so the store is asked the same
in the same order however small or large the pieces are in which a stream is read. What the blocks
of a stream come to is therefore what reading it to its end comes to, over a store that answers the
same.
-/

namespace ChunkedFile

namespace Window

variable (w : Window) (j k n : Nat)

/-- No more is handed out than there is. -/
theorem take_min : w.take (min n w.size) = w.take n := by
  have hused := w.used_le
  have hmark : min (w.used + min n w.size) w.bytes.size = min (w.used + n) w.bytes.size := by
    rw [size]
    omega
  simp only [take, hmark]

/-- Handing out some bytes and then some more comes to handing them out at once. -/
theorem take_take : (w.take j).1 ++ ((w.take j).2.take k).1 = (w.take (j + k)).1 ∧
    ((w.take j).2.take k).2 = (w.take (j + k)).2 := by
  have hused := w.used_le
  have hmark : min (min (w.used + j) w.bytes.size + k) w.bytes.size =
      min (w.used + (j + k)) w.bytes.size := by
    omega
  simp only [take, hmark]
  exact ⟨(ByteArray.extract_eq_extract_append_extract _ (by omega) (by omega)).symm, trivial⟩

end Window

namespace Session

variable {s t : Session} {n : Nat}

/-- No more is handed out than is buffered. -/
theorem deliver_min (s : Session) (n : Nat) : s.deliver (min n s.window.size) = s.deliver n := by
  simp only [deliver, Window.take_min]

/-- Handing out some bytes and then some more comes to handing them out at once. -/
theorem deliver_deliver (s : Session) (j k : Nat) :
    (s.deliver j).1 ++ ((s.deliver j).2.deliver k).1 = (s.deliver (j + k)).1 ∧
      ((s.deliver j).2.deliver k).2 = (s.deliver (j + k)).2 := by
  obtain ⟨hbytes, hwindow⟩ := s.window.take_take j k
  have hverifier (first second : ByteArray) :
      (s.verifier.map (·.update first)).map (·.update second) =
        s.verifier.map (·.update (first ++ second)) := by
    cases s.verifier with
    | none => rfl
    | some v => exact congrArg some (v.update_update first second)
  refine ⟨hbytes, ?_⟩
  simp only [deliver, hwindow, hverifier, hbytes, Nat.add_assoc, ← ByteArray.size_append]

/-- An open session with bytes in its window. -/
structure Buffered (s : Session) : Prop where
  stands : s.Stands
  isOpen : s.closed = false
  window : s.window.size ≠ 0

namespace Buffered

/-- What is in the window is a part of the file. -/
theorem size_le (h : s.Buffered) : s.window.size ≤ s.fileSize := by
  have hposition := h.stands.position
  have hle := s.table.index.offset_le_sum s.cursor
  have hskip : s.skip = 0 := by
    by_contra hne
    exact h.window (h.stands.skip hne).1
  rw [fileSize]
  omega

/-- Reading hands out what is in the window. -/
theorem read_eq (h : s.Buffered) (hn : n ≠ 0) :
    s.read Program.silent n = pure (.ok (s.deliver n).1, (s.deliver n).2) := by
  have hsettle := h.stands.settle_eq_self h.window
  have hneed : s.need = .buffered := by
    have hspec := s.need_spec
    have hrun := h.stands.need_ne_overrun
    rw [hsettle] at hrun
    cases hneed : s.need with
    | buffered => rfl
    | overrun => exact absurd hneed hrun
    | ended =>
      rw [hneed] at hspec
      exact absurd hspec.2.2 h.window
    | chunk i size address =>
      rw [hneed] at hspec
      exact absurd hspec.2.2.1 h.window
  rw [read, h.isOpen, if_neg Bool.false_ne_true, if_neg hn, hsettle]
  simp only [hneed]
  rfl

end Buffered

end Session

namespace RangeStream

variable {stream : RangeStream} {j k n size fuel whole : Nat}

/-- What a read hands out of the window, and the stream after it. -/
def handOut (stream : RangeStream) (n : Nat) : Except Error ByteArray × RangeStream :=
  let (piece, session) := stream.session.deliver (stream.limit n)
  (.ok piece, stream.consume session piece.size)

/-- A read of something is limited to nothing only where nothing remains. -/
theorem limit_ne_zero (hremaining : stream.remaining ≠ some 0) (hn : n ≠ 0) :
    stream.limit n ≠ 0 := by
  rw [limit]
  cases h : stream.remaining with
  | none => exact hn
  | some remaining =>
    have hne : remaining ≠ 0 := by
      rintro rfl
      exact hremaining h
    simp only
    omega

/-- Reading hands out what is in the window, as far as it is asked for and in the range. -/
theorem read_of_buffered (h : stream.session.Buffered) (hremaining : stream.remaining ≠ some 0)
    (hn : n ≠ 0) : stream.read Program.silent n = pure (stream.handOut n) := by
  rw [read, if_neg hremaining, h.read_eq (limit_ne_zero hremaining hn)]
  rfl

/-- Reads of different sizes ask for the same: what comes after them is the same computation if it
is so for what brings nothing, and where bytes are in the window. -/
theorem bind_read {β : Type} (hstands : stream.session.Stands)
    (hopen : stream.session.closed = false) (hj : j ≠ 0) (hk : k ≠ 0)
    {f g : Except Error ByteArray × RangeStream → Program β}
    (hnone : ∀ result next, (bytesOf result).size = 0 → f (result, next) = g (result, next))
    (hsome : ∀ loaded : RangeStream, loaded.session.Buffered → loaded.remaining ≠ some 0 →
      loaded.offset = stream.offset → loaded.session.fileSize = stream.session.fileSize →
      f (loaded.handOut j) = g (loaded.handOut k)) :
    stream.read Program.silent j >>= f = stream.read Program.silent k >>= g := by
  by_cases hremaining : stream.remaining = some 0
  · rw [read, read, if_pos hremaining, if_pos hremaining, pure_bind, pure_bind]
    exact hnone _ _ rfl
  by_cases hwindow : stream.session.window.size = 0
  · rw [read, read, if_neg hremaining, if_neg hremaining, bind_assoc, bind_assoc, Session.read,
      Session.read, hopen, if_neg Bool.false_ne_true, if_neg Bool.false_ne_true,
      if_neg (limit_ne_zero hremaining hj), if_neg (limit_ne_zero hremaining hk)]
    -- what a session needs does not depend on how much is asked for
    cases hneed : stream.session.settle.need with
    | overrun | ended =>
      simp only [hneed, pure_bind]
      exact hnone _ _ rfl
    | buffered =>
      have hspec := stream.session.settle.need_spec
      rw [hneed, Session.settle_window] at hspec
      exact absurd hwindow hspec
    | chunk i size address =>
      simp only [hneed, bind_assoc]
      refine bind_congr fun answer => ?_
      cases answer with
      | error e =>
        simp only [pure_bind]
        exact hnone _ _ rfl
      | ok bytes =>
        cases haccept : stream.session.settle.accept i size bytes with
        | error e =>
          simp only [haccept, pure_bind]
          exact hnone _ _ rfl
        | ok loaded =>
          obtain ⟨hloaded, hrest⟩ := hstands.accept hneed haccept
          obtain ⟨-, -, -, -, hlt, -⟩ := hstands.of_need_chunk hneed
          obtain ⟨htable, hstart, hdelivered, -⟩ := Session.frame_of_accept haccept
          have hsame : loaded.closed = false := by
            rw [(Session.accept_eq_ok_iff.mp haccept).2]
            exact Session.settle_closed.trans hopen
          have hwindow : loaded.window.size ≠ 0 := by omega
          simp only [haccept]
          refine hsome ⟨loaded, stream.remaining⟩ ⟨hloaded, hsame, hwindow⟩ hremaining ?_ ?_
          · simp only [offset, hstart, hdelivered]
          · simp only [Session.fileSize, htable]
  · have hbuffered : stream.session.Buffered := ⟨hstands, hopen, hwindow⟩
    rw [read_of_buffered hbuffered hremaining hj, read_of_buffered hbuffered hremaining hk,
      pure_bind, pure_bind]
    exact hsome stream hbuffered hremaining rfl rfl

/-- What blocks come to, and the error that ended them. -/
def gathered : List ByteArray × Option Error × RangeStream → Except Error ByteArray × RangeStream
  | (blocks, none, after) => (.ok (joined blocks), after)
  | (_, some e, after) => (.error e, after)

/-- Puts a block before what is gathered behind it. -/
def behind (block : ByteArray) (outcome : Except Error ByteArray × RangeStream) :
    Except Error ByteArray × RangeStream :=
  (outcome.1.map (block ++ ·), outcome.2)

/-- Goes on to gather behind a read that brought something. -/
def onward (rest : RangeStream → Program (Except Error ByteArray × RangeStream)) :
    Except Error ByteArray × RangeStream → Program (Except Error ByteArray × RangeStream)
  | (.error e, next) => pure (.error e, next)
  | (.ok block, next) =>
    if block.size = 0 then pure (.ok ByteArray.empty, next) else behind block <$> rest next

/-- Gathers the rest of a stream in blocks of at most `size` bytes, silently. -/
def gather (size fuel : Nat) (stream : RangeStream) :
    Program (Except Error ByteArray × RangeStream) :=
  gathered <$> stream.blocksFrom Program.silent size fuel

/-- What comes first stands before all that comes behind it. -/
theorem behind_behind (first second : ByteArray) (outcome : Except Error ByteArray × RangeStream) :
    behind first (behind second outcome) = behind (first ++ second) outcome := by
  obtain ⟨result, after⟩ := outcome
  cases result with
  | error e => rfl
  | ok bytes => simp only [behind, Except.map, ByteArray.append_assoc]

/-- A block stands before those that are gathered behind it. -/
theorem gathered_cons (block : ByteArray) (run : List ByteArray × Option Error × RangeStream) :
    gathered (block :: run.1, run.2.1, run.2.2) = behind block (gathered run) := by
  obtain ⟨blocks, e, after⟩ := run
  cases e with
  | none => simp only [gathered, behind, Except.map, joined_cons]
  | some e => rfl

/-- Gathering is reading and going on. -/
theorem gather_succ (size fuel : Nat) (stream : RangeStream) :
    gather size (fuel + 1) stream =
      stream.read Program.silent size >>= onward (gather size fuel) := by
  rw [gather, blocksFrom, map_bind]
  refine bind_congr fun outcome => ?_
  obtain ⟨result, next⟩ := outcome
  cases result with
  | error e => simp only [map_pure, gathered, onward]
  | ok block =>
    simp only [onward]
    split
    · simp only [map_pure, gathered, joined_nil]
    · simp only [gather, map_bind, map_pure, Functor.map_map, gathered_cons]
      rw [map_eq_pure_bind]

/-- Reading a stream to its end gathers it. -/
theorem readToEnd_eq_gather (stream : RangeStream) :
    stream.readToEnd Program.silent = gather drainSize stream.enough stream := by
  rw [readToEnd, gather, map_eq_pure_bind]
  refine bind_congr fun run => ?_
  obtain ⟨blocks, e, after⟩ := run
  cases e <;> rfl

/-- What comes after a read needs to be the same only where it moved the stream on. -/
theorem read_bind_onward_congr (hstands : stream.session.Stands)
    (hopen : stream.session.closed = false)
    (hfuel : stream.session.fileSize < stream.offset + (fuel + 1))
    {rest other : RangeStream → Program (Except Error ByteArray × RangeStream)}
    (h : ∀ next : RangeStream, next.session.Stands → next.session.closed = false →
      next.session.fileSize = stream.session.fileSize →
      next.session.fileSize < next.offset + fuel → rest next = other next) :
    stream.read Program.silent n >>= onward rest =
      stream.read Program.silent n >>= onward other := by
  refine Program.bind_congr_of_returns fun asked outcome hsilent => ?_
  rw [← read_answeredBy] at hsilent
  obtain ⟨steps, hread, -⟩ := Program.returns_of_silent hsilent
  obtain ⟨result, next⟩ := outcome
  cases result with
  | error e => rfl
  | ok block =>
    rw [onward, onward]
    by_cases hsize : block.size = 0
    · rw [if_pos hsize, if_pos hsize]
    · obtain ⟨htable, hoffset, -⟩ := next_of_read hread
      have hfile : next.session.fileSize = stream.session.fileSize := by
        rw [Session.fileSize, htable, Session.fileSize]
      have hnext : next.session.Stands ∧ next.session.closed = false := by
        rcases read_returns hread with ⟨-, -, -, rfl⟩ | ⟨-, session, hrun, rfl⟩
        · exact ⟨hstands, hopen⟩
        · exact ⟨hstands.read hrun, hrun.advanced.closed.trans hopen⟩
      rw [if_neg hsize, if_neg hsize, h next hnext.1 hnext.2 hfile]
      rw [hfile, hoffset, bytesOf]
      omega

/-- More reads than there are bytes change nothing. -/
theorem gather_of_lt (hstands : stream.session.Stands) (hopen : stream.session.closed = false)
    (hfuel : stream.session.fileSize < stream.offset + fuel) :
    gather size (fuel + 1) stream = gather size fuel stream := by
  induction fuel generalizing stream with
  | zero =>
    have hle : stream.offset ≤ stream.session.fileSize := hstands.position_le
    omega
  | succ fuel ih =>
    rw [gather_succ, gather_succ]
    exact read_bind_onward_congr hstands hopen hfuel fun next hnext hopen _ hlt =>
      ih hnext hopen hlt

/-- Handing out bytes moves a stream on by as many. -/
theorem after_handOut (h : stream.session.Buffered) (n : Nat) :
    (stream.handOut n).2.session.Stands ∧ (stream.handOut n).2.session.closed = false ∧
      (stream.handOut n).2.session.fileSize = stream.session.fileSize ∧
      (stream.handOut n).2.offset =
        stream.offset + min (stream.limit n) stream.session.window.size := by
  refine ⟨h.stands.deliver _, h.isOpen, rfl, ?_⟩
  simp only [handOut, consume, offset, Session.deliver, Window.size_take_fst, Nat.add_assoc]

/-- What is handed out in part is the beginning of what is handed out whole, and the rest of that is
what is handed out next. -/
theorem handOut_handOut (h : stream.session.Buffered)
    (hwhole : stream.session.fileSize < whole)
    (hless : min (stream.limit k) stream.session.window.size <
      min (stream.limit whole) stream.session.window.size) :
    (stream.handOut k).2.session.Buffered ∧ (stream.handOut k).2.remaining ≠ some 0 ∧
      stream.handOut whole =
        behind (bytesOf (stream.handOut k).1) ((stream.handOut k).2.handOut whole) := by
  obtain ⟨hstands, hopen, -, -⟩ := after_handOut h k
  have hwindow := h.size_le
  have hpiece := stream.session.window.size_take_fst (stream.limit k)
  have hrest := stream.session.window.size_take_snd (stream.limit k)
  refine ⟨⟨hstands, hopen, ?_⟩, ?_, ?_⟩
  · simp only [handOut, consume, Session.deliver]
    omega
  · simp only [handOut, consume, Session.deliver]
    cases hbound : stream.remaining with
    | none => simp
    | some remaining =>
      simp only [limit, hbound] at hless hpiece
      simp only [limit, hbound, Option.map_some, ne_eq, Option.some.injEq]
      omega
  · -- in two parts no more is handed out than at once, and no less
    have hlimit :
        min (stream.limit k + (stream.handOut k).2.limit whole) stream.session.window.size =
          min (stream.limit whole) stream.session.window.size := by
      simp only [handOut, consume, Session.deliver]
      cases hbound : stream.remaining with
      | none =>
        simp only [limit, hbound, Option.map_none] at hless ⊢
        omega
      | some remaining =>
        simp only [limit, hbound] at hless hpiece
        simp only [limit, hbound, Option.map_some, hpiece]
        omega
    have hsame : stream.session.deliver (stream.limit k + (stream.handOut k).2.limit whole) =
        stream.session.deliver (stream.limit whole) := by
      rw [← Session.deliver_min, hlimit, Session.deliver_min]
    obtain ⟨hbytes, hsession⟩ := stream.session.deliver_deliver (stream.limit k)
      ((stream.handOut k).2.limit whole)
    rw [hsame] at hbytes hsession
    have hsizes := congrArg ByteArray.size hbytes
    rw [ByteArray.size_append] at hsizes
    refine Prod.ext ?_ ?_
    · exact congrArg Except.ok hbytes.symm
    · have hleft (first second : Nat) : (stream.remaining.map (· - first)).map (· - second) =
          stream.remaining.map (· - (first + second)) := by
        rw [Option.map_map]
        exact Option.map_congr fun remaining _ => Nat.sub_sub remaining first second
      simp only [handOut, consume, behind] at hsession hsizes ⊢
      rw [hsession, ← hsizes, hleft]

/-- Something is handed out of a window, up to the end of the range. -/
theorem size_handOut_ne_zero (h : stream.session.Buffered) (hremaining : stream.remaining ≠ some 0)
    (hn : n ≠ 0) : (bytesOf (stream.handOut n).1).size ≠ 0 := by
  have hlimit := limit_ne_zero hremaining hn
  have hwindow := h.window
  have hsize := stream.session.window.size_take_fst (stream.limit n)
  simp only [handOut, bytesOf, Session.deliver]
  omega

/-- What is gathered behind a block that was put before another is put before both. -/
theorem onward_behind {rest : RangeStream → Program (Except Error ByteArray × RangeStream)}
    {block piece : ByteArray} {next : RangeStream} (hpiece : piece.size ≠ 0) :
    onward rest (behind block (.ok piece, next)) =
      behind block <$> onward rest (.ok piece, next) := by
  have hsize : (block ++ piece).size ≠ 0 := by
    rw [ByteArray.size_append]
    omega
  simp only [behind, onward, Except.map, if_neg hsize, if_neg hpiece, Functor.map_map]
  congr 1
  funext outcome
  exact (behind_behind block piece outcome).symm

/-- Gathering begins with what is in the window. -/
theorem gather_of_buffered (h : stream.session.Buffered) (hremaining : stream.remaining ≠ some 0)
    (hn : n ≠ 0) (hfuel : stream.session.fileSize < stream.offset + fuel) :
    gather n fuel stream = onward (gather n fuel) (stream.handOut n) := by
  have hmore : gather n (fuel + 1) stream = gather n fuel stream :=
    gather_of_lt h.stands h.isOpen hfuel
  rw [gather_succ, read_of_buffered h hremaining hn, pure_bind] at hmore
  exact hmore.symm

/-- A window may be handed out in part before the rest of it is gathered whole. -/
theorem onward_handOut (h : stream.session.Buffered) (hremaining : stream.remaining ≠ some 0)
    (hk : k ≠ 0) (hwhole : stream.session.fileSize < whole)
    (hfuel : stream.session.fileSize < stream.offset + (fuel + 1)) :
    onward (gather whole fuel) (stream.handOut k) =
      onward (gather whole fuel) (stream.handOut whole) := by
  have hinside : stream.session.window.size < whole := Nat.lt_of_le_of_lt h.size_le hwhole
  by_cases hsame : min (stream.limit k) stream.session.window.size =
      min (stream.limit whole) stream.session.window.size
  · have hdeliver : stream.session.deliver (stream.limit k) =
        stream.session.deliver (stream.limit whole) := by
      rw [← Session.deliver_min, hsame, Session.deliver_min]
    rw [handOut, handOut, hdeliver]
  · have hless : min (stream.limit k) stream.session.window.size <
        min (stream.limit whole) stream.session.window.size := by
      simp only [limit] at hsame ⊢
      split at hsame <;> omega
    have hn : whole ≠ 0 := by omega
    obtain ⟨hnext, hleft, hjoin⟩ := handOut_handOut h hwhole hless
    have hpiece := size_handOut_ne_zero h hremaining hk
    have hlater := size_handOut_ne_zero hnext hleft hn
    obtain ⟨-, -, hfile, hoffset⟩ := after_handOut h k
    have hmoved : (stream.handOut k).2.session.fileSize < (stream.handOut k).2.offset + fuel := by
      have hlimit := limit_ne_zero hremaining hk
      have hwindow := h.window
      omega
    calc onward (gather whole fuel) (stream.handOut k)
        = behind (bytesOf (stream.handOut k).1) <$> gather whole fuel (stream.handOut k).2 :=
          if_neg hpiece
      _ = behind (bytesOf (stream.handOut k).1) <$>
            onward (gather whole fuel) ((stream.handOut k).2.handOut whole) := by
          rw [gather_of_buffered hnext hleft hn hmoved]
      _ = onward (gather whole fuel) (stream.handOut whole) := by
          rw [hjoin]
          exact (onward_behind hlater).symm

/-- A stream may be gathered in blocks that hold any chunk. -/
theorem gather_whole (hstands : stream.session.Stands) (hopen : stream.session.closed = false)
    (hk : k ≠ 0) (hwhole : stream.session.fileSize < whole)
    (hfuel : stream.session.fileSize < stream.offset + fuel) :
    gather k fuel stream = gather whole fuel stream := by
  induction fuel generalizing stream with
  | zero =>
    have hle : stream.offset ≤ stream.session.fileSize := hstands.position_le
    omega
  | succ fuel ih =>
    have hlater : stream.read Program.silent k >>= onward (gather k fuel) =
        stream.read Program.silent k >>= onward (gather whole fuel) :=
      read_bind_onward_congr hstands hopen hfuel fun next hnext hnextOpen hfile hlt =>
        ih hnext hnextOpen (hfile ▸ hwhole) hlt
    rw [gather_succ, gather_succ, hlater]
    refine bind_read hstands hopen hk (by omega) ?_ ?_
    · intro result next hnone
      rfl
    · intro loaded hloaded hremaining hoffset hfile
      exact onward_handOut hloaded hremaining hk (hfile ▸ hwhole)
        (by rw [hfile, hoffset]; exact hfuel)

/-- What is gathered does not depend on the size of the blocks. -/
theorem gather_size (hstands : stream.session.Stands) (hopen : stream.session.closed = false)
    (hj : j ≠ 0) (hk : k ≠ 0) (hfuel : stream.session.fileSize < stream.offset + fuel) :
    gather j fuel stream = gather k fuel stream := by
  rw [gather_whole hstands hopen hj (Nat.lt_succ_self _) hfuel,
    gather_whole hstands hopen hk (Nat.lt_succ_self _) hfuel]

/-- Silently, the blocks of a stream come to what reading it to its end comes to. -/
theorem gathered_blocks (hstands : stream.session.Stands) (hopen : stream.session.closed = false)
    (size : Nat) :
    gathered <$> stream.blocks Program.silent size = stream.readToEnd Program.silent := by
  rw [readToEnd_eq_gather]
  exact gather_size hstands hopen (by omega) (by decide) (lt_offset_add_enough hstands)

/-- For every run in blocks there are runs to the end with the same answers of the store, and all of
them come to what the blocks come to. -/
theorem readToEnd_of_blocks {steps : List Step} {blocks : List ByteArray} {e : Option Error}
    {after : RangeStream} (hstands : stream.session.Stands) (hopen : stream.session.closed = false)
    (h : (stream.blocks Program.backend size).Returns steps (blocks, e, after)) :
    (∃ drained, (stream.readToEnd Program.backend).Returns drained (gathered (blocks, e, after)) ∧
      questions drained = questions steps) ∧
    ∀ drained outcome, (stream.readToEnd Program.backend).Returns drained outcome →
      questions drained = questions steps → outcome = gathered (blocks, e, after) := by
  have hsilent : (stream.readToEnd Program.silent).Returns (questions steps)
      (gathered (blocks, e, after)) := by
    have hblocks := blocksFrom_timeless.silent_returns h
    rw [blocksFrom_answeredBy] at hblocks
    rw [← gathered_blocks hstands hopen size, map_eq_pure_bind, Program.returns_bind_iff]
    exact ⟨_, _, [], hblocks, Program.returns_pure_iff.mpr ⟨rfl, rfl⟩, (List.append_nil _).symm⟩
  constructor
  · rw [← readToEnd_answeredBy] at hsilent
    exact Program.returns_of_silent hsilent
  · intro drained outcome hdrained hsame
    have hother := readToEnd_timeless.silent_returns hdrained
    rw [readToEnd_answeredBy, hsame] at hother
    exact hother.unique hsilent

/-- A stream that is set up on an open session, whatever was read from it before, can be taken in
blocks however the calls come out: a run ends where a read brings nothing or fails, with no more
blocks than there are bytes left. Each block holds some bytes and no more than it may, lies in one
chunk, and is short only where the chunk ends or the stream. From an honest store the blocks are the
rest of the stream up to where they end, and all of it exactly where no read fails. With the same
answers of the store, reading the stream to its end brings what the blocks bring, or fails as they
do. -/
theorem served_in_blocks {first : Session} {turns : List Turn} (hbuilt : first.Built)
    (hturns : first.Turns turns stream.session) (hopen : stream.session.closed = false)
    (size : Nat) :
    (∀ outcomes, ∃ steps run, (stream.blocks Program.backend size).Returns steps run ∧
      Follows outcomes 0 steps) ∧
    ∀ steps blocks e after,
      (stream.blocks Program.backend size).Returns steps (blocks, e, after) →
      BlockRun (max size 1) stream steps blocks e after ∧
      stream.offset + blocks.length ≤ stream.stop ∧
      (∀ before block behind, blocks = before ++ block :: behind →
        block.size ≠ 0 ∧ block.size ≤ max size 1 ∧ ∃ c,
          first.table.index.offset c ≤ stream.offset + (joined before).size ∧
          stream.offset + (joined before).size + block.size ≤ first.table.index.offset (c + 1) ∧
          (block.size < max size 1 →
            stream.offset + (joined before).size + block.size = first.table.index.offset (c + 1) ∨
            stream.offset + (joined before).size + block.size = stream.stop)) ∧
      (∀ payload file, first.table.Holds payload file →
        (∀ turn ∈ turns, ∀ step ∈ turn.steps, step.Honest payload) →
        (∀ step ∈ steps, step.Honest payload) →
        ∃ rest, joined blocks ++ rest = file.extract stream.offset stream.stop ∧
          (rest = ByteArray.empty ↔ e = none)) ∧
      (∃ drained, (stream.readToEnd Program.backend).Returns drained (gathered (blocks, e, after)) ∧
        questions drained = questions steps) ∧
      ∀ drained outcome, (stream.readToEnd Program.backend).Returns drained outcome →
        questions drained = questions steps → outcome = gathered (blocks, e, after) := by
  have hfresh := hbuilt.fresh
  have hlive := hturns.live hbuilt.live hopen
  obtain ⟨htable, -, -⟩ := hturns.advanced
  refine ⟨fun outcomes => Program.exists_follows outcomes _ 0, fun steps blocks e after h => ?_⟩
  -- the bound on the reads is never reached, so the blocks are a whole run
  have hrun := blocksFrom_returns hlive (lt_offset_add_enough hlive.stands) h
  refine ⟨hrun, hrun.offset_add_length_le hlive, ?_, ?_, readToEnd_of_blocks hlive.stands hopen h⟩
  · intro before block behind hblocks
    rw [← htable]
    exact hrun.each hlive hblocks
  · intro payload file hholds hbefore hhonest
    obtain ⟨hshows, -⟩ := hturns.shows hfresh hholds hbefore
    rw [← htable] at hholds
    have hjoined := hrun.shows hlive hholds (hshows hopen) hhonest
    obtain ⟨hle, hend⟩ := hrun.offset_add_le hlive (by omega)
    refine ⟨file.extract (stream.offset + (joined blocks).size) stream.stop, ?_, ?_⟩
    · rw [ByteArray.extract_eq_extract_append_extract (stream.offset + (joined blocks).size)
        (Nat.le_add_right _ _) hle, ← hjoined]
    · have hfile := Nat.le_trans stream.stop_le hholds.sum_le_size
      rw [hend, ByteArray.extract_eq_empty_iff]
      omega

end RangeStream

/-- The session of the three bytes. -/
def threeBytesSession : Session := { table := threeBytesTable }

/-- The three bytes after a read of the first one, in a range that would go on past the last. -/
def threeBytesOpen : RangeStream :=
  ⟨{ threeBytesSession with
      cursor := 1, delivered := 1, window := ⟨⟨#[7, 8]⟩, 1, by decide⟩ }, some 7⟩

/-- The read of the first byte. -/
def threeBytesTurn : Turn :=
  ⟨.read 1, [.now 0, .fetch ⟨"a", false⟩ (.ok ⟨#[7, 8]⟩), .now 0, .record (.chunkFetched 2 0),
    .record (.bytesDelivered 1)], .read (.ok ⟨#[7]⟩), threeBytesOpen.session⟩

/-- The steps that bring the other two. -/
def threeBytesSteps : List Step :=
  [.record (.bytesDelivered 1), .now 0, .fetch ⟨"c", false⟩ (.ok ⟨#[9]⟩), .now 0,
    .record (.chunkFetched 1 0), .record (.bytesDelivered 1)]

/-- Taken in blocks of no bytes at all, the other two come in a block each. -/
theorem served_in_blocks_threeBytes :
    threeBytesSession.Built ∧ threeBytesSession.Turns [threeBytesTurn] threeBytesOpen.session ∧
      (∀ step ∈ threeBytesTurn.steps ++ threeBytesSteps, step.Honest threeBytesStored) ∧
      ∃ after, (threeBytesOpen.blocks Program.backend 0).Returns threeBytesSteps
          ([⟨#[8]⟩, ⟨#[9]⟩], none, after) ∧
        (∃ rest, joined [⟨#[8]⟩, ⟨#[9]⟩] ++ rest =
            (threeBytes.content threeBytesStored).extract threeBytesOpen.offset
              threeBytesOpen.stop ∧
          (rest = ByteArray.empty ↔ (none : Option Error) = none)) ∧
        ∃ drained, (threeBytesOpen.readToEnd Program.backend).Returns drained
          (.ok ⟨#[8, 9]⟩, after) := by
  have hbuilt : threeBytesSession.Built := .new _ [2, 0, 1] rfl
  have hturns : threeBytesSession.Turns [threeBytesTurn] threeBytesOpen.session := by
    have hread : (threeBytesSession.perform Program.backend (.read 1)).Returns threeBytesTurn.steps
        (.read (.ok ⟨#[7]⟩), threeBytesOpen.session) := by
      apply Program.returns_of_follow
      with_unfolding_all rfl
    exact .snoc .nil hread
  have hlists : threeBytesSession.table.Lists threeBytes := ⟨rfl, rfl⟩
  have hstored : threeBytes.StoredIn threeBytesStored := by decide
  have hhonest : ∀ step ∈ threeBytesTurn.steps ++ threeBytesSteps,
      step.Honest threeBytesStored := by
    simp [threeBytesTurn, threeBytesSteps, Step.Honest, threeBytesStored]
  have hblocks : ((threeBytesOpen.blocks Program.backend 0).follow threeBytesSteps).map
      (fun run => (run.1, run.2.1)) = some ([⟨#[8]⟩, ⟨#[9]⟩], none) := by
    with_unfolding_all rfl
  obtain ⟨⟨blocks, e, after⟩, hfollow, hrun⟩ := Option.map_eq_some_iff.mp hblocks
  obtain ⟨rfl, rfl⟩ := Prod.mk.inj hrun
  have hreturns := Program.returns_of_follow hfollow
  obtain ⟨-, hserved⟩ := RangeStream.served_in_blocks hbuilt hturns rfl 0
  obtain ⟨-, -, -, hbytes, ⟨drained, hdrained, -⟩, -⟩ := hserved _ _ _ _ hreturns
  refine ⟨hbuilt, hturns, hhonest, after, hreturns, ?_, drained, hdrained⟩
  refine hbytes _ _ (hlists.holds hstored) ?_ fun step hstep => ?_
  · intro turn hturn step hstep
    rw [List.mem_singleton.mp hturn] at hstep
    exact hhonest step (List.mem_append_left _ hstep)
  · exact hhonest step (List.mem_append_right _ hstep)

end ChunkedFile
