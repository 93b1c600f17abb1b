import ChunkedFile.Proofs.Index.Location
import ChunkedFile.Proofs.Session.Placement

/-!
# Skipping chunk by chunk

A session may begin at an offset in two ways: the chunk that holds the byte is looked up in the
index, or the session begins at the first chunk and the bytes before the offset are left to be
dropped. A read that has to drop bytes passes whole chunks one after the other, and then the empty
ones. What it passes it takes from the skip, so it ends in a chunk around the byte. There is one
only, and both ways meet.
-/

namespace ChunkedFile

namespace Index

variable {index : Index} {x : Nat}

/-- A skip to a byte of the file does not run past the last chunk. -/
theorem Laid.passSkipped_lt (h : index.Laid) (hx : x < index.total) :
    (index.passSkipped 0 x).1 < index.extents.size := by
  have hoffset := index.passSkipped_offset 0 x
  rw [offset_zero] at hoffset
  exact h.lt_of_offset_le hx (by omega)

/-- A skip to a byte of the file, and over the empty chunks before it, ends where the byte is
located. -/
theorem Laid.locate_eq_passSkipped (h : index.Laid) (hx : x < index.total) :
    index.locate x =
      some (index.passEmpty (index.passSkipped 0 x).1, (index.passSkipped 0 x).2) := by
  have hoffset := index.passSkipped_offset 0 x
  have hinside := index.passSkipped_inside 0 x
  have hcursor := h.passSkipped_lt hx
  generalize index.passSkipped 0 x = place at hoffset hinside hcursor ⊢
  obtain ⟨cursor, skip⟩ := place
  obtain ⟨hsame, hsize⟩ := index.passEmpty_spec cursor
  simp only [offset_zero] at hoffset hinside hcursor ⊢
  -- empty chunks are passed only where the skip is used up, and then one that holds bytes follows
  have hlt : skip < index.sizeAt (index.passEmpty cursor) := by
    by_cases hskip : skip = 0
    · have hnext := hsize (h.lt_of_offset_le hx (by omega))
      omega
    · have hlt := hinside hskip hcursor
      rwa [passEmpty_eq (by omega)]
  rw [h.locate_eq_some_iff, offset_succ]
  omega

end Index

namespace Session

variable {s : Session} {start : Nat}

/-- The session at its first chunk, where all bytes before an offset are still to be dropped. -/
def pending (s : Session) (start : Nat) : Session := { s with start, cursor := 0, skip := start }

/-- With nothing in the window, the skipped chunks are passed and then the empty ones. -/
theorem settle_pending (hwindow : s.window.size = 0) : (s.pending start).settle =
    { s with
      start
      cursor := s.table.index.passEmpty (s.table.index.passSkipped 0 start).1
      skip := (s.table.index.passSkipped 0 start).2 } := by
  have hempty : (s.pending start).window.size = 0 := hwindow
  simp only [settle, hempty, if_true]
  rfl

/-- A session that drops the bytes before a byte of its file settles where it would be placed. -/
theorem skipTo_eq_settle_pending (hlaid : s.table.index.Laid) (hwindow : s.window.size = 0)
    (hstart : start < s.table.total) : s.skipTo start = .ok (s.pending start).settle := by
  rw [skipTo, if_neg fun hend => Nat.not_le.mpr hstart hend.2,
    hlaid.locate_eq_passSkipped hstart, settle_pending hwindow]
  rfl

/-- Looking a byte up agrees with skipping to it: from the first chunk on, the skip is used up
inside the file, and the session settles where it would be placed. -/
theorem skip_eq_locate {sizes : List UInt64} {index : Index}
    (hindex : Index.ofSizes? sizes = .ok index) (hstart : start < index.total) :
    ((index.passSkipped 0 start).1 < index.size ∧
      index.locate start =
        some (index.passEmpty (index.passSkipped 0 start).1, (index.passSkipped 0 start).2)) ∧
    ∀ s : Session, s.table.index = index → s.window.size = 0 →
      (s.pending start).settle.need ≠ .overrun ∧
      s.skipTo start = .ok (s.pending start).settle := by
  obtain ⟨-, rfl⟩ := Index.ofSizes?_eq_ok_iff.mp hindex
  have hlaid := Index.laid_ofSizes sizes
  have hlocate := hlaid.locate_eq_passSkipped hstart
  refine ⟨⟨hlaid.passSkipped_lt hstart, hlocate⟩, fun s htable hwindow => ?_⟩
  rw [← htable] at hlaid hstart hlocate
  refine ⟨fun hneed => ?_, skipTo_eq_settle_pending hlaid hwindow hstart⟩
  have hspec := (s.pending start).settle.need_spec
  rw [hneed, settle_pending hwindow] at hspec
  have hinside := (hlaid.of_locate_eq_some hlocate).2
  exact absurd hspec.1 (Nat.not_le.mpr (Index.lt_of_sizeAt hinside))

/-- The index of a file of eight bytes, with empty chunks around and between the two others. -/
def spacedIndex : Index := .ofSizes [0, 3, 0, 0, 5, 0]

/-- A new session on the file of eight bytes. -/
def spaced : Session := { table := ⟨spacedIndex, #["a", "b", "c", "d", "e", "f"], rfl⟩ }

/-- A skip of three bytes passes the empty chunk before them, and settling the two behind them. -/
theorem skip_eq_locate_spaced :
    Index.ofSizes? [0, 3, 0, 0, 5, 0] = .ok spacedIndex ∧ 3 < spacedIndex.total ∧
      spacedIndex.passSkipped 0 3 = (2, 0) ∧ spacedIndex.passEmpty 2 = 4 ∧
      spacedIndex.locate 3 = some (4, 0) ∧ (spaced.pending 3).settle.need ≠ .overrun ∧
      spaced.skipTo 3 = .ok (spaced.pending 3).settle := by
  have hindex : Index.ofSizes? [0, 3, 0, 0, 5, 0] = .ok spacedIndex := rfl
  have hstart : 3 < spacedIndex.total := by decide
  have hpassed : spacedIndex.passSkipped 0 3 = (2, 0) := by with_unfolding_all rfl
  have hempty : spacedIndex.passEmpty 2 = 4 := by with_unfolding_all rfl
  obtain ⟨⟨-, hlocate⟩, hsession⟩ := skip_eq_locate hindex hstart
  obtain ⟨hneed, hplaced⟩ := hsession spaced rfl rfl
  rw [hpassed, hempty] at hlocate
  exact ⟨hindex, hstart, hpassed, hempty, hlocate, hneed, hplaced⟩

end Session

end ChunkedFile
