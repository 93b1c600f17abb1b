import ChunkedFile.Proofs.Run.Fetch
import ChunkedFile.Session

/-!
# What a read can do

`Session.ReadRun` has one case for each way in which a read of a session can end, with the
requests it makes on the way. All that is said later of reads is said of these cases, so a session
is opened up only here.
-/

namespace ChunkedFile

namespace Window

@[simp] theorem size_empty : empty.size = 0 := rfl

/-- The window on a chunk leaves out what is skipped. -/
@[simp] theorem size_ofChunk (bytes : ByteArray) (skip : Nat) :
    (ofChunk bytes skip).size = bytes.size - skip := by
  simp only [ofChunk, size]
  omega

/-- As much is handed out as is asked for and there. -/
theorem size_take_fst (w : Window) (n : Nat) : (w.take n).1.size = min n w.size := by
  have hused := w.used_le
  simp only [take, size, ByteArray.size_extract]
  omega

/-- What is handed out is gone from the window. -/
theorem size_take_snd (w : Window) (n : Nat) : (w.take n).2.size + (w.take n).1.size = w.size := by
  have hused := w.used_le
  simp only [take, size, ByteArray.size_extract]
  omega

end Window

/-- The bytes that a read brought. -/
def bytesOf : Except Error ByteArray → ByteArray
  | .ok bytes => bytes
  | .error _ => ByteArray.empty

namespace Session

variable {s t : Session} {n i size : Nat} {address : String} {steps : List Step}
  {result : Except Error ByteArray} {bytes : ByteArray}

/-- Settling moves the cursor and uses up the skip, no more. -/
theorem settle_eq (s : Session) :
    s.settle = { s with cursor := s.settle.cursor, skip := s.settle.skip } := by
  by_cases hwindow : s.window.size = 0 <;> simp [settle, hwindow]

@[simp] theorem settle_table : s.settle.table = s.table := by rw [settle_eq]

@[simp] theorem settle_policy : s.settle.policy = s.policy := by rw [settle_eq]

@[simp] theorem settle_proxied : s.settle.proxied = s.proxied := by rw [settle_eq]

@[simp] theorem settle_verifier : s.settle.verifier = s.verifier := by rw [settle_eq]

@[simp] theorem settle_start : s.settle.start = s.start := by rw [settle_eq]

@[simp] theorem settle_delivered : s.settle.delivered = s.delivered := by rw [settle_eq]

@[simp] theorem settle_window : s.settle.window = s.window := by rw [settle_eq]

@[simp] theorem settle_closed : s.settle.closed = s.closed := by rw [settle_eq]

/-- A payload is taken in exactly where it has the recorded size. -/
theorem accept_eq_ok_iff :
    s.accept i size bytes = .ok t ↔ bytes.size = size ∧
      t = { s with cursor := i + 1, skip := 0, window := .ofChunk bytes s.skip } := by
  rw [accept]
  by_cases hsize : bytes.size = size
  · simp only [hsize, ne_eq, not_true_eq_false, if_false, Except.ok.injEq, true_and]
    exact eq_comm
  · simp [hsize]

/-- Taking in a chunk passes it and hands out nothing. -/
theorem frame_of_accept (h : s.settle.accept i size bytes = .ok t) :
    t.table = s.table ∧ t.start = s.start ∧ t.delivered = s.delivered ∧ t.cursor = i + 1 ∧
      t.skip = 0 := by
  rw [(accept_eq_ok_iff.mp h).2]
  exact ⟨settle_table, settle_start, settle_delivered, rfl, rfl⟩

/-- The runs of a read of at most `n` bytes: requests, result and the session left behind. -/
inductive ReadRun (s : Session) (n : Nat) :
    List Step → Except Error ByteArray → Session → Prop
  | closed (hclosed : s.closed = true) : ReadRun s n [] (.error .sessionClosed) s
  | nothing (hopen : s.closed = false) (hn : n = 0) : ReadRun s n [] (.ok ByteArray.empty) s
  | overrun (hopen : s.closed = false) (hn : n ≠ 0) (hneed : s.settle.need = .overrun) :
      ReadRun s n []
        (.error (.range (.skipPastEnd s.settle.skip s.settle.table.total))) s.settle
  | ended (hopen : s.closed = false) (hn : n ≠ 0) (hneed : s.settle.need = .ended) :
      ReadRun s n [] (.ok ByteArray.empty) s.settle
  | buffered (hopen : s.closed = false) (hn : n ≠ 0) (hneed : s.settle.need = .buffered) :
      ReadRun s n [.record (.bytesDelivered (s.settle.deliver n).1.size)]
        (.ok (s.settle.deliver n).1) (s.settle.deliver n).2
  | failed (hopen : s.closed = false) (hn : n ≠ 0) (i size address fetching e)
      (hneed : s.settle.need = .chunk i size address)
      (hfetch : (Program.backend.fetchRetrying s.policy ⟨address, s.proxied⟩).Returns
        fetching (.error e)) :
      ReadRun s n fetching (.error e) s.settle
  | refused (hopen : s.closed = false) (hn : n ≠ 0) (i size address fetching bytes e)
      (hneed : s.settle.need = .chunk i size address)
      (hfetch : (Program.backend.fetchRetrying s.policy ⟨address, s.proxied⟩).Returns
        fetching (.ok bytes))
      (haccept : s.settle.accept i size bytes = .error e) :
      ReadRun s n fetching (.error e) s.settle
  | fetched (hopen : s.closed = false) (hn : n ≠ 0) (i size address fetching bytes t)
      (hneed : s.settle.need = .chunk i size address)
      (hfetch : (Program.backend.fetchRetrying s.policy ⟨address, s.proxied⟩).Returns
        fetching (.ok bytes))
      (haccept : s.settle.accept i size bytes = .ok t) :
      ReadRun s n (fetching ++ [.record (.bytesDelivered (t.deliver n).1.size)])
        (.ok (t.deliver n).1) (t.deliver n).2

/-- What is handed out of the buffer is recorded. -/
private theorem deliverCounted_returns
    (h : (s.deliverCounted Program.backend n).Returns steps (result, t)) :
    steps = [.record (.bytesDelivered (s.deliver n).1.size)] ∧ result = .ok (s.deliver n).1 ∧
      t = (s.deliver n).2 := by
  simp only [deliverCounted, Program.returns_bind_iff, Program.returns_record_iff,
    Program.returns_pure_iff, Prod.mk.injEq] at h
  obtain ⟨_, _, _, rfl, ⟨rfl, rfl, rfl⟩, rfl⟩ := h
  exact ⟨rfl, rfl, rfl⟩

/-- Every run of a read is one of these cases. -/
theorem read_returns (h : (s.read Program.backend n).Returns steps (result, t)) :
    ReadRun s n steps result t := by
  rw [read] at h
  by_cases hclosed : s.closed = true
  · rw [if_pos hclosed, Program.returns_pure_iff, Prod.mk.injEq] at h
    obtain ⟨rfl, rfl, rfl⟩ := h
    exact .closed hclosed
  have hopen : s.closed = false := by simpa using hclosed
  rw [if_neg hclosed] at h
  by_cases hn : n = 0
  · rw [if_pos hn, Program.returns_pure_iff, Prod.mk.injEq] at h
    obtain ⟨rfl, rfl, rfl⟩ := h
    exact .nothing hopen hn
  rw [if_neg hn] at h
  cases hneed : s.settle.need with
  | overrun =>
    simp only [hneed, Program.returns_pure_iff, Prod.mk.injEq] at h
    obtain ⟨rfl, rfl, rfl⟩ := h
    exact .overrun hopen hn hneed
  | ended =>
    simp only [hneed, Program.returns_pure_iff, Prod.mk.injEq] at h
    obtain ⟨rfl, rfl, rfl⟩ := h
    exact .ended hopen hn hneed
  | buffered =>
    simp only [hneed] at h
    obtain ⟨rfl, rfl, rfl⟩ := deliverCounted_returns h
    exact .buffered hopen hn hneed
  | chunk i size address =>
    simp only [hneed, settle_policy, settle_proxied] at h
    rw [Program.returns_bind_iff] at h
    obtain ⟨fetching, answer, rest, hfetch, hrest, rfl⟩ := h
    cases answer with
    | error e =>
      simp only [Program.returns_pure_iff, Prod.mk.injEq] at hrest
      obtain ⟨rfl, rfl, rfl⟩ := hrest
      rw [List.append_nil]
      exact .failed hopen hn i size address fetching e hneed hfetch
    | ok bytes =>
      cases haccept : s.settle.accept i size bytes with
      | error e =>
        simp only [haccept, Program.returns_pure_iff, Prod.mk.injEq] at hrest
        obtain ⟨rfl, rfl, rfl⟩ := hrest
        rw [List.append_nil]
        exact .refused hopen hn i size address fetching bytes e hneed hfetch haccept
      | ok taken =>
        simp only [haccept] at hrest
        obtain ⟨rfl, rfl, rfl⟩ := deliverCounted_returns hrest
        exact .fetched hopen hn i size address fetching bytes taken hneed hfetch haccept

/-- A read of a closed session is refused and leaves it as it is. -/
theorem ReadRun.of_closed (h : ReadRun s n steps result t) (hclosed : s.closed = true) :
    result = .error .sessionClosed ∧ t = s := by
  cases h with
  | closed => exact ⟨rfl, rfl⟩
  | nothing hopen | overrun hopen | ended hopen | buffered hopen | failed hopen | refused hopen
  | fetched hopen => simp [hclosed] at hopen

/-- A read calls for nothing but the chunk that the settled session needs. -/
theorem read_onlyCalls : (s.read Program.backend n).OnlyCalls fun call =>
    s.closed = false ∧ n ≠ 0 ∧ ∃ i size address, s.settle.need = .chunk i size address ∧
      call = ⟨address, s.proxied⟩ := by
  rw [read]
  by_cases hclosed : s.closed = true
  · rw [if_pos hclosed]
    exact trivial
  rw [if_neg hclosed]
  by_cases hn : n = 0
  · rw [if_pos hn]
    exact trivial
  rw [if_neg hn]
  cases hneed : s.settle.need with
  | overrun => simp only [hneed]; exact trivial
  | ended => simp only [hneed]; exact trivial
  | buffered => simp only [hneed]; exact trivial
  | chunk i size address =>
    simp only [hneed]
    refine Program.OnlyCalls.bind ?_ fun answer => ?_
    · refine Backend.fetchRetrying_onlyCalls.mono ?_
      rintro call rfl
      exact ⟨by simpa using hclosed, hn, i, size, address, rfl, by simp⟩
    · cases answer with
      | error e => exact trivial
      | ok bytes =>
        cases haccept : s.settle.accept i size bytes with
        | error e => simp only [haccept]; exact trivial
        | ok taken => simp only [haccept]; exact trivial

end Session

end ChunkedFile
