import ChunkedFile.Proofs.Index.Offsets
import ChunkedFile.Proofs.Session.Read

/-!
# Where a session stands

The bytes handed out and those in the window end where the cursor stands, up to the skip, and a
skip lies inside the chunk at the cursor. Every read keeps this, however it ends, so the next byte
handed out is always the one at `start + delivered`, and no chunk but the one that holds it is
ever called for.
-/

namespace ChunkedFile

namespace ChunkTable

/-- The address of a chunk. -/
def addressAt? (table : ChunkTable) (i : Nat) : Option String := table.addresses[i]?

/-- Only behind the last chunk is there none. -/
theorem get?_eq_none_iff {table : ChunkTable} {i : Nat} :
    table.get? i = none ↔ table.index.extents.size ≤ i := by
  rw [get?]
  split <;> simp_all

/-- A chunk of the table has the size of the index and its own address. -/
theorem get?_eq_some {table : ChunkTable} {i size : Nat} {address : String}
    (h : table.get? i = some (size, address)) :
    i < table.index.extents.size ∧ size = table.index.sizeAt i ∧
      table.addressAt? i = some address := by
  rw [get?] at h
  split at h
  · rename_i hi
    rw [Option.some.injEq, Prod.mk.injEq] at h
    obtain ⟨rfl, rfl⟩ := h
    exact ⟨hi, (Index.sizeAt_eq hi).symm, Array.getElem?_eq_getElem _⟩
  · cases h

end ChunkTable

namespace Session

variable {s t : Session} {n i size : Nat} {address : String} {steps : List Step}
  {result : Except Error ByteArray} {bytes : ByteArray}

/-- The number of bytes in the file of a session. -/
def fileSize (s : Session) : Nat := s.table.index.sizes.sum

/-- What each need says of the session that has it. -/
theorem need_spec (s : Session) :
    match s.need with
    | .overrun => s.table.index.extents.size ≤ s.cursor ∧ s.skip ≠ 0
    | .ended => s.table.index.extents.size ≤ s.cursor ∧ s.skip = 0 ∧ s.window.size = 0
    | .buffered => s.window.size ≠ 0
    | .chunk i size address => i = s.cursor ∧ i < s.table.index.extents.size ∧
        s.window.size = 0 ∧ size = s.table.index.sizeAt i ∧ s.table.addressAt? i = some address := by
  cases hget : s.table.get? s.cursor with
  | none =>
    have hend := ChunkTable.get?_eq_none_iff.mp hget
    by_cases hskip : s.skip = 0
    · by_cases hwindow : s.window.size = 0
      · have hneed : s.need = .ended := by simp [need, hget, hskip, hwindow]
        rw [hneed]
        exact ⟨hend, hskip, hwindow⟩
      · have hneed : s.need = .buffered := by simp [need, hget, hskip, hwindow]
        rw [hneed]
        exact hwindow
    · have hneed : s.need = .overrun := by simp [need, hget, hskip]
      rw [hneed]
      exact ⟨hend, hskip⟩
  | some chunk =>
    obtain ⟨size, address⟩ := chunk
    by_cases hwindow : s.window.size = 0
    · have hneed : s.need = .chunk s.cursor size address := by simp [need, hget, hwindow]
      obtain ⟨hi, hsize, haddress⟩ := ChunkTable.get?_eq_some hget
      rw [hneed]
      exact ⟨rfl, hi, hwindow, hsize, haddress⟩
    · have hneed : s.need = .buffered := by simp [need, hget, hwindow]
      rw [hneed]
      exact hwindow

/-- A session at the place that its counters tell. -/
structure Stands (s : Session) : Prop where
  /-- A skip lies inside the chunk at the cursor, and then nothing is in the window. -/
  skip : s.skip ≠ 0 → s.window.size = 0 ∧ s.skip < s.table.index.sizeAt s.cursor
  /-- What was handed out and what is in the window end where the cursor stands. -/
  position : s.start + s.delivered + s.window.size = s.table.index.offset s.cursor + s.skip

/-- A session on a file whose sizes have a sum, at the place that its counters tell. -/
structure Placed (s : Session) : Prop extends stands : Stands s where
  laid : s.table.index.Laid
  fits : s.fileSize ≤ Size.limit

namespace Stands

/-- A session with bytes in its window is settled. -/
theorem settle_eq_self (h : s.Stands) (hwindow : s.window.size ≠ 0) : s.settle = s := by
  have hpass : s.table.index.passSkipped s.cursor s.skip = (s.cursor, s.skip) :=
    Index.passSkipped_eq fun hskip _ => (h.skip hskip).2
  simp [Session.settle, hpass, hwindow]

/-- Settling passes no byte. -/
theorem settle (h : s.Stands) : s.settle.Stands ∧ s.settle.skip = s.skip ∧
    (s.window.size = 0 → s.settle.cursor < s.table.index.extents.size →
      s.table.index.sizeAt s.settle.cursor ≠ 0) := by
  have hpass : s.table.index.passSkipped s.cursor s.skip = (s.cursor, s.skip) :=
    Index.passSkipped_eq fun hskip _ => (h.skip hskip).2
  by_cases hwindow : s.window.size = 0
  · have hsettle : s.settle =
        { s with cursor := s.table.index.passEmpty s.cursor, skip := s.skip } := by
      simp [Session.settle, hpass, hwindow]
    obtain ⟨hoffset, hsize⟩ := s.table.index.passEmpty_spec s.cursor
    rw [hsettle]
    refine ⟨⟨fun hskip => ⟨hwindow, ?_⟩, ?_⟩, rfl, fun _ => hsize⟩
    · have hlt := (h.skip hskip).2
      simp only [Index.passEmpty_eq (Nat.ne_of_gt (Nat.lt_of_le_of_lt (Nat.zero_le _) hlt))]
      exact hlt
    · simp only [hoffset]
      exact h.position
  · rw [h.settle_eq_self hwindow]
    exact ⟨h, rfl, fun hzero => absurd hzero hwindow⟩

/-- The next byte lies in the file or is its end. -/
theorem position_le (h : s.Stands) : s.start + s.delivered ≤ s.fileSize := by
  have hposition := h.position
  by_cases hskip : s.skip = 0
  · have hle := s.table.index.offset_le_sum s.cursor
    rw [fileSize]
    omega
  · have hlt := (h.skip hskip).2
    have hle := s.table.index.offset_le_sum (s.cursor + 1)
    rw [Index.offset_succ] at hle
    rw [fileSize]
    omega

/-- The chunk that is needed is the one that holds the next byte, and nothing is in the window. -/
theorem of_need_chunk (h : s.Stands) (hneed : s.settle.need = .chunk i size address) :
    i = s.settle.cursor ∧ s.window.size = 0 ∧ size = s.table.index.sizeAt i ∧
      s.table.addressAt? i = some address ∧ s.skip < size ∧
      s.start + s.delivered = s.table.index.offset i + s.skip := by
  obtain ⟨hsettled, hskip, hsize⟩ := h.settle
  have hposition := hsettled.position
  have hspec := s.settle.need_spec
  rw [hneed] at hspec
  simp only [settle_table, settle_start, settle_delivered, settle_window, hskip] at hposition hspec
  obtain ⟨hi, hlt, hwindow, hchunk, haddress⟩ := hspec
  subst hi
  refine ⟨rfl, hwindow, hchunk, haddress, ?_, by omega⟩
  by_cases hzero : s.skip = 0
  · have hne := hsize hwindow hlt
    omega
  · have hinside := (hsettled.skip (by rw [hskip]; exact hzero)).2
    rw [hskip, settle_table] at hinside
    omega

/-- A skip never runs past the last chunk. -/
theorem need_ne_overrun (h : s.Stands) : s.settle.need ≠ .overrun := by
  intro hneed
  have hspec := s.settle.need_spec
  rw [hneed] at hspec
  have hlt := Index.lt_of_sizeAt (h.settle.1.skip hspec.2).2
  exact absurd hspec.1 (Nat.not_le.mpr hlt)

/-- Bytes are handed out of the window only where there are some, and then none are skipped. -/
theorem of_need_buffered (h : s.Stands) (hneed : s.settle.need = .buffered) :
    s.window.size ≠ 0 ∧ s.skip = 0 := by
  have hspec := s.settle.need_spec
  rw [hneed] at hspec
  simp only [settle_window] at hspec
  refine ⟨hspec, ?_⟩
  by_cases hskip : s.skip = 0
  · exact hskip
  · exact absurd (h.skip hskip).1 hspec

/-- Nothing is left to be done exactly where the next byte would lie past the last one. -/
theorem need_eq_ended_iff (h : s.Stands) :
    s.settle.need = .ended ↔ s.start + s.delivered = s.fileSize := by
  obtain ⟨hsettled, hskip, -⟩ := h.settle
  have hposition := hsettled.position
  simp only [settle_table, settle_start, settle_delivered, settle_window, hskip] at hposition
  constructor
  · intro hneed
    have hspec := s.settle.need_spec
    rw [hneed] at hspec
    simp only [settle_table, settle_window, hskip] at hspec
    obtain ⟨hend, hzero, hwindow⟩ := hspec
    rw [s.table.index.offset_of_size_le hend] at hposition
    rw [fileSize]
    omega
  · intro hend
    rw [fileSize] at hend
    cases hneed : s.settle.need with
    | ended => rfl
    | overrun => exact absurd hneed h.need_ne_overrun
    | buffered =>
      obtain ⟨hwindow, hzero⟩ := h.of_need_buffered hneed
      have hoffset := s.table.index.offset_le_sum s.settle.cursor
      omega
    | chunk i size address =>
      obtain ⟨rfl, -, rfl, -, hlt, hat⟩ := h.of_need_chunk hneed
      have hoffset := s.table.index.offset_le_sum (s.settle.cursor + 1)
      rw [Index.offset_succ] at hoffset
      omega

/-- Taking in the needed chunk leaves what follows the skip in the window. -/
theorem accept (h : s.Stands) (hneed : s.settle.need = .chunk i size address)
    (haccept : s.settle.accept i size bytes = .ok t) :
    t.Stands ∧ t.window.size = size - s.skip := by
  obtain ⟨rfl, hwindow, hsize, -, hlt, hat⟩ := h.of_need_chunk hneed
  obtain ⟨hbytes, rfl⟩ := accept_eq_ok_iff.mp haccept
  obtain ⟨hsettled, hskip, -⟩ := h.settle
  refine ⟨⟨fun hne => absurd rfl hne, ?_⟩, ?_⟩
  · simp only [settle_start, settle_delivered, settle_table, Window.size_ofChunk, hskip,
      Index.offset_succ]
    omega
  · simp only [Window.size_ofChunk, hskip, hbytes]

/-- Handing out bytes of the window moves on by as many. -/
theorem deliver (h : s.Stands) (n : Nat) : (s.deliver n).2.Stands := by
  have htake := s.window.size_take_snd n
  refine ⟨fun hskip => ?_, ?_⟩
  · obtain ⟨hwindow, hlt⟩ := h.skip hskip
    refine ⟨?_, hlt⟩
    simp only [Session.deliver]
    omega
  · have hposition := h.position
    simp only [Session.deliver]
    omega

/-- A read keeps the session where its counters tell, however it ends. -/
theorem read (h : s.Stands) (hread : ReadRun s n steps result t) : t.Stands := by
  cases hread with
  | closed | nothing => exact h
  | overrun | ended | failed | refused => exact h.settle.1
  | buffered => exact h.settle.1.deliver n
  | fetched hopen hn i size address fetching bytes taken hneed hfetch haccept =>
    exact (h.accept hneed haccept).1.deliver n

/-- A new session that is placed at an offset stands there. -/
theorem skipTo {start : Nat} (hlaid : s.table.index.Laid) (hdelivered : s.delivered = 0)
    (hwindow : s.window.size = 0) (h : s.skipTo start = .ok t) :
    t.Stands ∧ start ≤ s.table.total ∧
      t = { s with start, cursor := t.cursor, skip := t.skip } := by
  rw [Session.skipTo] at h
  by_cases hend : 0 < start ∧ s.table.total ≤ start
  · rw [if_pos hend] at h
    cases h
  rw [if_neg hend] at h
  have hstart : start ≤ s.table.total := by omega
  cases hlocate : s.table.index.locate start with
  | none =>
    have hle := hlaid.locate_eq_none_iff.mp hlocate
    have hzero : start = 0 := by
      rw [ChunkTable.total] at hend
      omega
    simp only [hlocate, Option.getD_none, Except.ok.injEq] at h
    subst h
    refine ⟨⟨fun hskip => absurd rfl hskip, ?_⟩, hstart, rfl⟩
    simp only [Index.offset_zero]
    omega
  | some place =>
    obtain ⟨i, skip⟩ := place
    obtain ⟨hoffset, hlt⟩ := hlaid.of_locate_eq_some hlocate
    simp only [hlocate, Option.getD_some, Except.ok.injEq] at h
    subst h
    refine ⟨⟨fun _ => ⟨hwindow, hlt⟩, ?_⟩, hstart, rfl⟩
    simp only
    omega

end Stands

/-- What a read leaves alone, and how it counts the bytes it brought. -/
structure Advanced (s : Session) (n : Nat) (bytes : ByteArray) (t : Session) : Prop where
  table : t.table = s.table
  proxied : t.proxied = s.proxied
  closed : t.closed = s.closed
  start : t.start = s.start
  delivered : t.delivered = s.delivered + bytes.size
  size_le : bytes.size ≤ n

/-- Settling hands out nothing. -/
theorem advanced_settle (n : Nat) : Advanced s n ByteArray.empty s.settle :=
  ⟨settle_table, settle_proxied, settle_closed, settle_start, settle_delivered, Nat.zero_le n⟩

/-- Handing out of the buffer advances by what is handed out. -/
theorem Advanced.deliver (h : Advanced s n ByteArray.empty t) :
    Advanced s n (t.deliver n).1 (t.deliver n).2 := by
  refine ⟨h.table, h.proxied, h.closed, h.start, ?_, ?_⟩
  · have hdelivered := h.delivered
    rw [ByteArray.size_empty, Nat.add_zero] at hdelivered
    simp only [Session.deliver, hdelivered]
  · have hsize := t.window.size_take_fst n
    simp only [Session.deliver]
    omega

/-- A read counts what it brought and leaves the rest alone. -/
theorem ReadRun.advanced (h : ReadRun s n steps result t) : Advanced s n (bytesOf result) t := by
  cases h with
  | closed | nothing => exact ⟨rfl, rfl, rfl, rfl, rfl, Nat.zero_le n⟩
  | overrun | ended | failed | refused => exact advanced_settle n
  | buffered => exact (advanced_settle n).deliver
  | fetched hopen hn i size address fetching bytes taken hneed hfetch haccept =>
    obtain ⟨-, rfl⟩ := accept_eq_ok_iff.mp haccept
    have hsettle := advanced_settle (s := s) n
    exact Advanced.deliver ⟨hsettle.table, hsettle.proxied, hsettle.closed, hsettle.start,
      hsettle.delivered, hsettle.size_le⟩

/-- A read keeps the session placed, however it ends. -/
theorem Placed.read (h : s.Placed) (hread : ReadRun s n steps result t) : t.Placed := by
  have hstands := h.stands.read hread
  have htable := hread.advanced.table
  have hlaid : t.table.index.Laid := by
    rw [htable]
    exact h.laid
  have hfits : t.fileSize ≤ Size.limit := by
    rw [fileSize, htable]
    exact h.fits
  exact ⟨hstands, hlaid, hfits⟩

/-- An open session brings nothing exactly where its file is at its end. -/
theorem ReadRun.eq_ok_empty_iff (h : ReadRun s n steps result t) (hstands : s.Stands)
    (hopen : s.closed = false) (hn : n ≠ 0) :
    result = .ok ByteArray.empty ↔ s.start + s.delivered = s.fileSize := by
  have hended := hstands.need_eq_ended_iff
  cases h with
  | closed hclosed => simp [hopen] at hclosed
  | nothing _ hzero => exact absurd hzero hn
  | overrun _ _ hneed => exact absurd hneed hstands.need_ne_overrun
  | ended _ _ hneed => exact ⟨fun _ => hended.mp hneed, fun _ => rfl⟩
  | buffered _ _ hneed =>
    obtain ⟨hwindow, -⟩ := hstands.of_need_buffered hneed
    have hsize := s.settle.window.size_take_fst n
    rw [settle_window] at hsize
    rw [← hended, hneed, Except.ok.injEq, ← ByteArray.size_eq_zero_iff]
    simp only [deliver, settle_window, reduceCtorEq, iff_false]
    omega
  | failed _ _ i size address fetching e hneed hfetch =>
    rw [← hended, hneed]
    simp
  | refused _ _ i size address fetching bytes e hneed hfetch haccept =>
    rw [← hended, hneed]
    simp
  | fetched _ _ i size address fetching bytes taken hneed hfetch haccept =>
    obtain ⟨-, -, -, -, hlt, -⟩ := hstands.of_need_chunk hneed
    obtain ⟨-, hwindow⟩ := hstands.accept hneed haccept
    have hsize := taken.window.size_take_fst n
    rw [← hended, hneed, Except.ok.injEq, ← ByteArray.size_eq_zero_iff]
    simp only [deliver, reduceCtorEq, iff_false]
    omega

end Session

end ChunkedFile
