import ChunkedFile.Link
import ChunkedFile.Proofs.Session.Placement

/-!
# Reads of an opened range

A history of a stream lists its reads in order, each with its requests, its result and the stream
left behind. `RangeStream.Within` says that a stream ends at a given offset of the file; an opened
range is such a stream and every read keeps it one.
-/

namespace ChunkedFile

/-- One read of a stream. -/
structure Round where
  asked : Nat
  steps : List Step
  result : Except Error ByteArray
  after : RangeStream

/-- The bytes of some pieces, one after the other. -/
def joined (pieces : List ByteArray) : ByteArray := pieces.foldl ByteArray.append ByteArray.empty

@[simp] theorem joined_nil : joined [] = ByteArray.empty := rfl

@[simp] theorem joined_cons (piece : ByteArray) (pieces : List ByteArray) :
    joined (piece :: pieces) = piece ++ joined pieces := by
  have hfrom : ∀ first : ByteArray,
      pieces.foldl ByteArray.append first = first ++ joined pieces := by
    induction pieces with
    | nil => exact fun first => ByteArray.append_empty.symm
    | cons head tail ih =>
      intro first
      rw [joined, List.foldl_cons, List.foldl_cons, ih, ih, ByteArray.append_eq,
        ByteArray.append_eq, ByteArray.empty_append, ByteArray.append_assoc]
  rw [joined, List.foldl_cons, hfrom, ByteArray.append_eq, ByteArray.empty_append]

@[simp] theorem joined_append (first second : List ByteArray) :
    joined (first ++ second) = joined first ++ joined second := by
  induction first with
  | nil => simp
  | cons piece pieces ih => simp [ih, ByteArray.append_assoc]

/-- Joined pieces are as long as all of them together. -/
theorem size_joined (pieces : List ByteArray) :
    (joined pieces).size = (pieces.map ByteArray.size).sum := by
  induction pieces with
  | nil => rfl
  | cons piece pieces ih => simp [ih, ByteArray.size_append]

/-- Each of the pieces is found behind those before it. -/
theorem extract_joined {pieces : List ByteArray} {i : Nat} {piece : ByteArray}
    (h : pieces[i]? = some piece) :
    (joined pieces).extract ((pieces.take i).map ByteArray.size).sum
      (((pieces.take i).map ByteArray.size).sum + piece.size) = piece := by
  induction pieces generalizing i with
  | nil => simp at h
  | cons head tail ih =>
    cases i with
    | zero =>
      rw [List.getElem?_cons_zero, Option.some.injEq] at h
      subst h
      simpa using ByteArray.extract_append_eq_left rfl
    | succ i =>
      rw [List.getElem?_cons_succ] at h
      rw [joined_cons, List.take_succ_cons, List.map_cons, List.sum_cons, Nat.add_assoc,
        ByteArray.extract_append_size_add, ih h]

/-- All bytes that reads brought, one after the other. -/
def delivered (rounds : List Round) : ByteArray :=
  joined (rounds.map fun round => bytesOf round.result)

@[simp] theorem delivered_nil : delivered [] = ByteArray.empty := rfl

/-- A further read adds what it delivers. -/
theorem delivered_append_singleton (rounds : List Round) (round : Round) :
    delivered (rounds ++ [round]) = delivered rounds ++ bytesOf round.result := by
  simp [delivered]

namespace RangeStream

variable {stream next : RangeStream} {n : Nat} {steps : List Step}
  {result : Except Error ByteArray}

/-- The histories of reads of a stream and the streams they lead to. -/
inductive Reads (first : RangeStream) : List Round → RangeStream → Prop
  | nil : Reads first [] first
  | snoc {rounds stream n steps result next} (before : Reads first rounds stream)
      (read : (stream.read Program.backend n).Returns steps (result, next)) :
      Reads first (rounds ++ [⟨n, steps, result, next⟩]) next

/-- A read of a stream is a read of its session, unless the range is used up. -/
theorem read_returns (h : (stream.read Program.backend n).Returns steps (result, next)) :
    (stream.remaining = some 0 ∧ steps = [] ∧ result = .ok ByteArray.empty ∧ next = stream) ∨
      (stream.remaining ≠ some 0 ∧ ∃ session,
        stream.session.ReadRun (stream.limit n) steps result session ∧
          next = stream.consume session (bytesOf result).size) := by
  rw [read] at h
  by_cases hused : stream.remaining = some 0
  · rw [if_pos hused, Program.returns_pure_iff, Prod.mk.injEq] at h
    obtain ⟨rfl, rfl, rfl⟩ := h
    exact Or.inl ⟨hused, rfl, rfl, rfl⟩
  · rw [if_neg hused, Program.returns_bind_iff] at h
    obtain ⟨first, ⟨answer, session⟩, second, hread, hrest, rfl⟩ := h
    have hrun := Session.read_returns hread
    refine Or.inr ⟨hused, session, ?_⟩
    cases answer <;>
    · simp only [Program.returns_pure_iff, Prod.mk.injEq] at hrest
      obtain ⟨rfl, rfl, rfl⟩ := hrest
      rw [List.append_nil]
      exact ⟨hrun, rfl⟩

/-- The offset of the next byte that a stream hands out. -/
def offset (stream : RangeStream) : Nat := stream.session.start + stream.session.delivered

/-- Where a stream ends: with its range or with its file. -/
def stop (stream : RangeStream) : Nat :=
  match stream.remaining with
  | some remaining => min (stream.offset + remaining) stream.session.fileSize
  | none => stream.session.fileSize

/-- No stream ends behind its file. -/
theorem stop_le (stream : RangeStream) : stream.stop ≤ stream.session.fileSize := by
  rw [stop]
  split <;> omega

/-- A stream does not pass its end. -/
theorem offset_le_stop (h : stream.session.Stands) : stream.offset ≤ stream.stop := by
  have hle : stream.offset ≤ stream.session.fileSize := h.position_le
  rw [stop]
  split <;> omega

/-- A read moves a stream on by what it brings, and the end stays where it is. -/
theorem next_of_read (hread : (stream.read Program.backend n).Returns steps (result, next)) :
    next.session.table = stream.session.table ∧
      next.offset = stream.offset + (bytesOf result).size ∧ next.stop = stream.stop ∧
      (bytesOf result).size ≤ n := by
  rcases read_returns hread with ⟨-, -, rfl, rfl⟩ | ⟨-, session, hrun, rfl⟩
  · exact ⟨rfl, rfl, rfl, Nat.zero_le n⟩
  · have hadvanced := hrun.advanced
    have hsize := hadvanced.size_le
    have hfile : session.fileSize = stream.session.fileSize := by
      rw [Session.fileSize, hadvanced.table, Session.fileSize]
    have hoffset : (stream.consume session (bytesOf result).size).offset =
        stream.offset + (bytesOf result).size := by
      simp only [offset, consume, hadvanced.start, hadvanced.delivered, Nat.add_assoc]
    refine ⟨hadvanced.table, hoffset, ?_, ?_⟩
    · rw [stop, hoffset, stop]
      cases hremaining : stream.remaining with
      | none => simp only [consume, hremaining, Option.map_none, hfile]
      | some remaining =>
        simp only [limit, hremaining] at hsize
        simp only [consume, hremaining, Option.map_some, hfile]
        congr 1
        omega
    · rw [limit] at hsize
      split at hsize <;> omega

/-- A read of some bytes brings none exactly at the end of the stream. -/
theorem eq_ok_empty_iff (hstands : stream.session.Stands)
    (hopen : stream.session.closed = false) (hn : n ≠ 0)
    (hread : (stream.read Program.backend n).Returns steps (result, next)) :
    result = .ok ByteArray.empty ↔ stream.offset = stream.stop := by
  have hle : stream.offset ≤ stream.session.fileSize := hstands.position_le
  rcases read_returns hread with ⟨hused, -, rfl, rfl⟩ | ⟨hused, session, hrun, rfl⟩
  · simp only [stop, hused, true_iff]
    omega
  · rw [stop]
    cases hremaining : stream.remaining with
    | none =>
      have hlimit : stream.limit n ≠ 0 := by simpa [limit, hremaining] using hn
      exact hrun.eq_ok_empty_iff hstands hopen hlimit
    | some remaining =>
      have hne : remaining ≠ 0 := by
        rintro rfl
        exact hused hremaining
      have hlimit : stream.limit n ≠ 0 := by
        simp only [limit, hremaining]
        omega
      rw [hrun.eq_ok_empty_iff hstands hopen hlimit, ← offset]
      simp only
      omega

/-- An open stream that ends at the offset `stop` of its file. -/
structure Within (stream : RangeStream) (stop : Nat) : Prop where
  placed : stream.session.Placed
  isOpen : stream.session.closed = false
  bounded : ∀ remaining, stream.remaining = some remaining → stream.offset + remaining = stop
  unbounded : stream.remaining = none → stream.session.fileSize = stop
  stop_le : stop ≤ stream.session.fileSize

namespace Within

variable {stop : Nat}

/-- A stream is never behind its end. -/
theorem offset_le (h : stream.Within stop) : stream.offset ≤ stop := by
  cases hremaining : stream.remaining with
  | none =>
    rw [← h.unbounded hremaining]
    exact h.placed.stands.position_le
  | some remaining =>
    have hbounded := h.bounded remaining hremaining
    omega

/-- The end of a stream can be held. -/
theorem fits (h : stream.Within stop) : stop ≤ Size.limit := Nat.le_trans h.stop_le h.placed.fits

/-- A read moves a stream on by what it brought and no further than its end. -/
theorem read (h : stream.Within stop)
    (hread : (stream.read Program.backend n).Returns steps (result, next)) :
    next.Within stop ∧
      Session.Advanced stream.session n (bytesOf result) next.session := by
  rcases read_returns hread with ⟨-, -, rfl, rfl⟩ | ⟨hused, session, hrun, rfl⟩
  · exact ⟨h, rfl, rfl, rfl, rfl, rfl, Nat.zero_le n⟩
  · have hadvanced := hrun.advanced
    have hlimit : stream.limit n ≤ n := by
      rw [limit]
      split <;> omega
    have hfile : session.fileSize = stream.session.fileSize := by
      rw [Session.fileSize, hadvanced.table, Session.fileSize]
    refine ⟨⟨h.placed.read hrun, hadvanced.closed.trans h.isOpen, ?_, ?_, ?_⟩, ?_⟩
    · intro remaining hremaining
      simp only [consume, Option.map_eq_some_iff] at hremaining
      obtain ⟨before, hbefore, rfl⟩ := hremaining
      have hbounded := h.bounded before hbefore
      have hsize := hadvanced.size_le
      simp only [limit, hbefore] at hsize
      simp only [offset, consume, hadvanced.start, hadvanced.delivered] at hbounded ⊢
      omega
    · intro hremaining
      simp only [consume, Option.map_eq_none_iff] at hremaining
      exact hfile.trans (h.unbounded hremaining)
    · exact Nat.le_trans h.stop_le (Nat.le_of_eq hfile.symm)
    · exact ⟨hadvanced.table, hadvanced.proxied, hadvanced.closed, hadvanced.start,
        hadvanced.delivered, Nat.le_trans hadvanced.size_le hlimit⟩

/-- A stream that ends in its file ends there. -/
theorem stop_eq (h : stream.Within stop) : stream.stop = stop := by
  have hle := h.stop_le
  rw [RangeStream.stop]
  cases hremaining : stream.remaining with
  | none => exact h.unbounded hremaining
  | some remaining =>
    have hbounded := h.bounded remaining hremaining
    simp only
    omega

/-- A read of some bytes brings none exactly where the stream is at its end. -/
theorem eq_ok_empty_iff (h : stream.Within stop) (hn : n ≠ 0)
    (hread : (stream.read Program.backend n).Returns steps (result, next)) :
    result = .ok ByteArray.empty ↔ stream.offset = stop := by
  rw [RangeStream.eq_ok_empty_iff h.placed.stands h.isOpen hn hread, h.stop_eq]

end Within

/-- A history moves a stream on by what its reads brought. -/
theorem Reads.within {first : RangeStream} {rounds : List Round} {stop : Nat}
    (h : first.Within stop) (hreads : first.Reads rounds stream) :
    stream.Within stop ∧ stream.session.table = first.session.table ∧
      stream.session.proxied = first.session.proxied ∧
      stream.session.start = first.session.start ∧
      stream.offset = first.offset + (delivered rounds).size := by
  induction hreads with
  | nil => exact ⟨h, rfl, rfl, rfl, by simp⟩
  | snoc before read ih =>
    obtain ⟨hwithin, htable, hproxied, hstart, hoffset⟩ := ih
    obtain ⟨hnext, hadvanced⟩ := hwithin.read read
    refine ⟨hnext, hadvanced.table.trans htable, hadvanced.proxied.trans hproxied,
      hadvanced.start.trans hstart, ?_⟩
    rw [delivered_append_singleton, ByteArray.size_append, offset, hadvanced.start,
      hadvanced.delivered, ← Nat.add_assoc, ← Nat.add_assoc, ← hoffset, offset]

end RangeStream

end ChunkedFile
