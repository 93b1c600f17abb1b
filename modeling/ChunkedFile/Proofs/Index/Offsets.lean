import Mathlib.Data.UInt
import ChunkedFile.Session.Table

/-!
# Exact offsets of chunks

The offset of a chunk is the exact sum of the sizes before it. An index records it held at the
greatest size, and all that locating a byte or passing over chunks does is said here in terms of
exact offsets. Ends held at the greatest size still order all offsets of the file correctly.
-/

namespace ChunkedFile

namespace Size

/-- Adding to a held sum is holding the exact sum. -/
theorem add_min_limit (a b : Nat) : add (min a limit) b = min (a + b) limit := by
  unfold add
  omega

/-- A sum held at the limit all along is the exact sum held once. -/
theorem total_eq_min (sizes : List Nat) : total sizes = min sizes.sum limit := by
  have hfrom : ∀ first, sizes.foldl add (min first limit) = min (first + sizes.sum) limit := by
    induction sizes with
    | nil => exact fun first => rfl
    | cons size sizes ih =>
      intro first
      rw [List.foldl_cons, add_min_limit, ih, List.sum_cons, Nat.add_assoc]
  have hzero := hfrom 0
  rw [Nat.zero_min, Nat.zero_add] at hzero
  exact hzero

/-- Where the exact sum of some sizes is a size, so is their recorded sum, and it is exact. -/
theorem toNat_sum {sizes : List UInt64} (h : (sizes.map UInt64.toNat).sum ≤ limit) :
    sizes.sum.toNat = (sizes.map UInt64.toNat).sum := by
  induction sizes with
  | nil => rfl
  | cons size sizes ih =>
    rw [List.map_cons, List.sum_cons] at h ⊢
    rw [limit] at h ih
    rw [List.sum_cons, UInt64.toNat_add, ih (by omega)]
    omega

/-- A running sum of the sizes of some items is exact as far as it is within the limit. -/
theorem foldlM_add?_eq_some_iff {α : Type} (size : α → Nat) (items : List α) {before : Nat}
    (hbefore : before ≤ limit) (total : Nat) :
    items.foldlM (fun total item => add? total (size item)) before = some total ↔
      before + (items.map size).sum ≤ limit ∧ total = before + (items.map size).sum := by
  induction items generalizing before with
  | nil =>
    simp only [List.foldlM_nil, List.map_nil, List.sum_nil, Nat.add_zero, Option.pure_def,
      Option.some.injEq]
    omega
  | cons item rest ih =>
    rw [List.foldlM_cons, List.map_cons, List.sum_cons, ← Nat.add_assoc]
    by_cases hfit : before + size item ≤ limit
    · rw [add?, if_pos hfit]
      exact ih hfit
    · rw [add?, if_neg hfit]
      simp only [Option.bind_eq_bind, Option.bind_none, reduceCtorEq, false_iff]
      omega

end Size

namespace Index

/-- The exact sum of the sizes before a chunk. -/
def offset (index : Index) (i : Nat) : Nat := (index.sizes.take i).sum

/-- The size of a chunk; nothing lies past the last one. -/
def sizeAt (index : Index) (i : Nat) : Nat := index.sizes.getD i 0

@[simp] theorem length_sizes (index : Index) : index.sizes.length = index.extents.size := by
  simp [sizes]

/-- A chunk of the index has the size of its extent. -/
theorem sizeAt_eq {index : Index} {i : Nat} (hi : i < index.extents.size) :
    index.sizeAt i = index.extents[i].size := by
  simp [sizeAt, sizes, List.getD_eq_getElem?_getD, hi]

/-- Behind the last chunk there are no sizes. -/
theorem sizeAt_eq_zero {index : Index} {i : Nat} (hi : index.extents.size ≤ i) :
    index.sizeAt i = 0 := by
  simp [sizeAt, sizes, List.getD_eq_getElem?_getD, hi]

/-- A chunk that holds bytes is one of the index. -/
theorem lt_of_sizeAt {index : Index} {i n : Nat} (h : n < index.sizeAt i) :
    i < index.extents.size := by
  by_cases hi : i < index.extents.size
  · exact hi
  · rw [sizeAt_eq_zero (Nat.le_of_not_lt hi)] at h
    omega

@[simp] theorem offset_zero (index : Index) : index.offset 0 = 0 := by
  simp [offset]

/-- A chunk begins where the one before it ends. -/
theorem offset_succ (index : Index) (i : Nat) :
    index.offset (i + 1) = index.offset i + index.sizeAt i := by
  rw [offset, List.take_add_one, List.sum_append, offset, sizeAt, List.getD_eq_getElem?_getD]
  cases index.sizes[i]? <;> simp

/-- Later chunks begin no earlier. -/
theorem offset_mono (index : Index) {i j : Nat} (hij : i ≤ j) :
    index.offset i ≤ index.offset j := by
  induction hij with
  | refl => exact Nat.le_refl _
  | step _ ih =>
    rw [Nat.succ_eq_add_one, offset_succ]
    omega

/-- Behind the last chunk is the end of all sizes. -/
theorem offset_of_size_le (index : Index) {i : Nat} (hi : index.extents.size ≤ i) :
    index.offset i = index.sizes.sum := by
  rw [offset, List.take_of_length_le (by simpa using hi)]

/-- No chunk begins behind the end of all sizes. -/
theorem offset_le_sum (index : Index) (i : Nat) : index.offset i ≤ index.sizes.sum := by
  rcases Nat.le_total index.extents.size i with hi | hi
  · exact Nat.le_of_eq (index.offset_of_size_le hi)
  · rw [← index.offset_of_size_le (Nat.le_refl _)]
    exact index.offset_mono hi

/-- The positions and the total are the exact ones, held at the greatest size. -/
structure Laid (index : Index) : Prop where
  position : ∀ (i : Nat) (hi : i < index.extents.size),
    index.extents[i].position = min (index.offset i) Size.limit
  total : index.total = min index.sizes.sum Size.limit

/-- A total that is a size is not held. -/
theorem Laid.total_eq_sum {index : Index} (h : index.Laid)
    (hfits : index.sizes.sum ≤ Size.limit) : index.total = index.sizes.sum := by
  rw [h.total, Nat.min_eq_left hfits]

@[simp] theorem sizes_push (index : Index) (size : Nat) :
    (index.push size).sizes = index.sizes ++ [size] := by
  simp [push, sizes]

/-- One more chunk changes no offset up to its own. -/
theorem offset_push (index : Index) (size : Nat) {i : Nat} (hi : i ≤ index.extents.size) :
    (index.push size).offset i = index.offset i := by
  rw [offset, sizes_push, List.take_append_of_le_length (by simpa using hi), offset]

/-- Chunks stay laid out when another one is added. -/
theorem Laid.push {index : Index} (h : index.Laid) (size : Nat) : (index.push size).Laid := by
  constructor
  · intro i hi
    have hsize : (index.push size).extents.size = index.extents.size + 1 := by simp [Index.push]
    rw [index.offset_push size (by omega)]
    by_cases hlast : i = index.extents.size
    · subst hlast
      simp [Index.push, h.total, index.offset_of_size_le (Nat.le_refl _)]
    · have hi' : i < index.extents.size := by omega
      simp only [Index.push, Array.getElem_push_lt hi']
      exact h.position i hi'
  · rw [sizes_push, List.sum_append, List.sum_singleton, ← Size.add_min_limit, ← h.total]
    rfl

/-- Chunks are laid end to end in the order of their sizes. -/
theorem foldl_push {index : Index} (h : index.Laid) (sizes : List UInt64) :
    (sizes.foldl (fun index size => index.push size.toNat) index).Laid ∧
      (sizes.foldl (fun index size => index.push size.toNat) index).sizes =
        index.sizes ++ sizes.map UInt64.toNat := by
  induction sizes generalizing index with
  | nil => exact ⟨h, by simp⟩
  | cons size rest ih =>
    obtain ⟨hlaid, hsizes⟩ := ih (h.push size.toNat)
    exact ⟨hlaid, by simpa using hsizes⟩

theorem laid_empty : empty.Laid := ⟨fun i hi => absurd hi (by simp [empty]), by simp [empty, sizes]⟩

/-- An index that is built from sizes is laid out. -/
theorem laid_ofSizes (sizes : List UInt64) : (ofSizes sizes).Laid :=
  (foldl_push laid_empty sizes).1

/-- The sizes that an index is built from are its sizes. -/
@[simp] theorem sizes_ofSizes (sizes : List UInt64) :
    (ofSizes sizes).sizes = sizes.map UInt64.toNat := by
  rw [ofSizes, (foldl_push laid_empty sizes).2]
  rfl

/-- Sizes are laid out exactly where their sum fits. -/
theorem ofSizes?_eq_ok_iff {sizes : List UInt64} {index : Index} :
    ofSizes? sizes = .ok index ↔
      (sizes.map UInt64.toNat).sum ≤ Size.limit ∧ index = ofSizes sizes := by
  have htotal := Size.foldlM_add?_eq_some_iff UInt64.toNat sizes (Nat.zero_le Size.limit)
  simp only [Nat.zero_add] at htotal
  rw [ofSizes?]
  cases he : exactTotal? sizes with
  | some total =>
    have hfit := ((htotal total).mp he).1
    simp only [Except.ok.injEq, hfit, true_and]
    exact eq_comm
  | none =>
    have hfit : ¬ (sizes.map UInt64.toNat).sum ≤ Size.limit := by
      intro hfit
      have hsome := (htotal _).mpr ⟨hfit, rfl⟩
      rw [← exactTotal?, he] at hsome
      cases hsome
    simp [hfit]

/-- Sizes whose sum does not fit are refused by their number. -/
theorem ofSizes?_eq_error_iff {sizes : List UInt64} {error : Error} :
    ofSizes? sizes = .error error ↔ Size.limit < (sizes.map UInt64.toNat).sum ∧
      error = .parse (.sizesPastLimit sizes.length) := by
  by_cases hfit : (sizes.map UInt64.toNat).sum ≤ Size.limit
  · rw [ofSizes?_eq_ok_iff.mpr ⟨hfit, rfl⟩]
    simp [hfit]
  · cases hindex : ofSizes? sizes with
    | ok index => exact absurd (ofSizes?_eq_ok_iff.mp hindex).1 hfit
    | error e =>
      rw [ofSizes?] at hindex
      split at hindex
      · cases hindex
      · cases hindex
        simp only [Except.error.injEq, Nat.lt_of_not_le hfit, true_and]
        exact eq_comm

/-- A chunk ends where the next one begins. -/
theorem Laid.stop {index : Index} (h : index.Laid) {i : Nat} (hi : i < index.extents.size) :
    index.extents[i].stop = min (index.offset (i + 1)) Size.limit := by
  rw [Extent.stop, h.position i hi, Size.add_min_limit, offset_succ, sizeAt_eq hi]

/-- The chunks before `low` end at or before an offset, those from `high` on end beyond it. -/
structure Brackets (extents : Array Extent) (x low high : Nat) : Prop where
  before : ∀ (i : Nat) (hi : i < extents.size), i < low → extents[i].stop ≤ x
  after : ∀ (i : Nat) (hi : i < extents.size), high ≤ i → x < extents[i].stop

/-- Where the ends of chunks do not decrease, the search closes in on one cut. -/
theorem Brackets.firstEndingBeyond {extents : Array Extent} {x low high : Nat}
    (hmono : ∀ (i j : Nat) (hij : i ≤ j) (hj : j < extents.size),
      extents[i].stop ≤ extents[j].stop)
    (hlow : low ≤ high) (hhigh : high ≤ extents.size) (h : Brackets extents x low high) :
    Index.firstEndingBeyond extents x low high hhigh ≤ extents.size ∧
      Brackets extents x (Index.firstEndingBeyond extents x low high hhigh)
        (Index.firstEndingBeyond extents x low high hhigh) := by
  fun_induction Index.firstEndingBeyond extents x low high hhigh with
  | case1 low high hhigh hlt middle hm hstop ih =>
    refine ih (by omega) ⟨fun i hi hilow => ?_, h.after⟩
    exact Nat.le_trans (hmono i middle (by omega) (by omega)) hstop
  | case2 low high hhigh hlt middle hm hstop ih =>
    refine ih (by omega) ⟨h.before, fun i hi hmi => ?_⟩
    exact Nat.lt_of_lt_of_le (Nat.lt_of_not_le hstop) (hmono middle i hmi hi)
  | case3 low high hhigh hlt =>
    have he : low = high := by omega
    subst he
    exact ⟨hhigh, h⟩

/-- What begins at or before a byte of the file is a chunk. -/
theorem Laid.lt_of_offset_le {index : Index} (h : index.Laid) {x i : Nat} (hx : x < index.total)
    (hle : index.offset i ≤ x) : i < index.extents.size := by
  have htotal := h.total
  apply Nat.lt_of_not_le
  intro hend
  rw [index.offset_of_size_le hend] at hle
  omega

/-- Every byte of the file is located in the chunk around its exact offset. -/
theorem Laid.locate_of_lt {index : Index} (h : index.Laid) {x : Nat} (hx : x < index.total) :
    ∃ i, index.offset i ≤ x ∧ x < index.offset (i + 1) ∧
      index.locate x = some (i, x - index.offset i) := by
  have htotal := h.total
  have hmono (i j : Nat) (hij : i ≤ j) (hj : j < index.extents.size) :
      index.extents[i].stop ≤ index.extents[j].stop := by
    rw [h.stop hj, h.stop (Nat.lt_of_le_of_lt hij hj)]
    have hoffsets := index.offset_mono (Nat.add_le_add_right hij 1)
    omega
  -- before the search nothing is known of the extents, so the whole index brackets the byte
  obtain ⟨hsize, hbrackets⟩ := Brackets.firstEndingBeyond hmono (Nat.zero_le _) (Nat.le_refl _)
    (⟨fun _ _ hi => absurd hi (Nat.not_lt_zero _), fun i hi hi' => absurd hi (Nat.not_lt.mpr hi')⟩ :
      Brackets index.extents x 0 index.extents.size)
  rw [locate, if_neg (Nat.not_le.mpr hx)]
  generalize firstEndingBeyond index.extents x 0 index.extents.size _ = i at hsize hbrackets ⊢
  have hle : index.offset i ≤ x := by
    cases i with
    | zero => simp
    | succ i =>
      have hstop := hbrackets.before i (by omega) (Nat.lt_succ_self i)
      rw [h.stop (by omega)] at hstop
      omega
  have hi := h.lt_of_offset_le hx hle
  have hlt : x < index.offset (i + 1) := by
    have hstop := hbrackets.after i hi (Nat.le_refl i)
    rw [h.stop hi] at hstop
    omega
  have hposition : index.extents[i].position = index.offset i := by
    rw [h.position i hi]
    omega
  refine ⟨i, hle, hlt, ?_⟩
  have hcontains : index.extents[i].contains x = true := by
    simp only [Extent.contains, hposition, h.stop hi, Bool.and_eq_true, decide_eq_true_eq]
    omega
  simp only [Array.getElem?_eq_getElem hi, hcontains, if_true, hposition]

/-- No byte is located exactly from the end of the file on. -/
theorem Laid.locate_eq_none_iff {index : Index} (h : index.Laid) {x : Nat} :
    index.locate x = none ↔ index.total ≤ x := by
  by_cases hx : index.total ≤ x
  · simp [locate, hx]
  · obtain ⟨i, _, _, hlocate⟩ := h.locate_of_lt (Nat.lt_of_not_le hx)
    simp [hlocate, hx]

/-- The located chunk holds the byte at the located place. -/
theorem Laid.of_locate_eq_some {index : Index} (h : index.Laid) {x i w : Nat}
    (hlocate : index.locate x = some (i, w)) : index.offset i + w = x ∧ w < index.sizeAt i := by
  have hx : x < index.total := by
    apply Nat.lt_of_not_le
    intro hx
    rw [h.locate_eq_none_iff.mpr hx] at hlocate
    cases hlocate
  obtain ⟨j, hle, hlt, hj⟩ := h.locate_of_lt hx
  rw [hj, Option.some.injEq, Prod.mk.injEq] at hlocate
  obtain ⟨rfl, rfl⟩ := hlocate
  rw [offset_succ] at hlt
  omega

/-- A skip inside the chunk at the cursor passes no chunk. -/
theorem passSkipped_eq {index : Index} {cursor skip : Nat}
    (h : skip ≠ 0 → cursor < index.extents.size → skip < index.sizeAt cursor) :
    index.passSkipped cursor skip = (cursor, skip) := by
  rw [passSkipped]
  by_cases hcursor : cursor < index.extents.size
  · have hstays : ¬ (skip ≠ 0 ∧ index.extents[cursor].size ≤ skip) := by
      rintro ⟨hskip, hle⟩
      have hlt := h hskip hcursor
      rw [sizeAt_eq hcursor] at hlt
      omega
    rw [dif_pos hcursor, if_neg hstays]
  · rw [dif_neg hcursor]

/-- What passing takes from the skip it adds to the offset. -/
theorem passSkipped_offset (index : Index) (cursor skip : Nat) :
    index.offset (index.passSkipped cursor skip).1 + (index.passSkipped cursor skip).2 =
      index.offset cursor + skip := by
  fun_induction index.passSkipped cursor skip with
  | case1 cursor skip hcursor hpass ih =>
    rw [ih, offset_succ, sizeAt_eq hcursor]
    omega
  | case2 | case3 => rfl

/-- What is left of a skip lies inside the chunk where passing stops. -/
theorem passSkipped_inside (index : Index) (cursor skip : Nat) :
    (index.passSkipped cursor skip).2 ≠ 0 →
      (index.passSkipped cursor skip).1 < index.extents.size →
        (index.passSkipped cursor skip).2 < index.sizeAt (index.passSkipped cursor skip).1 := by
  fun_induction index.passSkipped cursor skip with
  | case1 cursor skip hcursor hpass ih => exact ih
  | case2 cursor skip hcursor hstays =>
    intro hskip _
    rw [sizeAt_eq hcursor]
    exact Nat.lt_of_not_le fun hle => hstays ⟨hskip, hle⟩
  | case3 cursor skip hcursor => exact fun _ hlt => absurd hlt hcursor

/-- Skipped chunks are passed at once. -/
theorem passSkipped_passSkipped (index : Index) (cursor skip : Nat) :
    index.passSkipped (index.passSkipped cursor skip).1 (index.passSkipped cursor skip).2 =
      index.passSkipped cursor skip :=
  passSkipped_eq (index.passSkipped_inside cursor skip)

/-- Passing empty chunks moves over no byte and stops at a chunk that holds some, or at the end. -/
theorem passEmpty_spec (index : Index) (cursor : Nat) :
    index.offset (index.passEmpty cursor) = index.offset cursor ∧
      (index.passEmpty cursor < index.extents.size →
        index.sizeAt (index.passEmpty cursor) ≠ 0) := by
  fun_induction index.passEmpty cursor with
  | case1 cursor hcursor hempty ih =>
    rw [index.offset_succ, sizeAt_eq hcursor, hempty, Nat.add_zero] at ih
    exact ih
  | case2 cursor hcursor hsize =>
    refine ⟨rfl, fun _ => ?_⟩
    rw [sizeAt_eq hcursor]
    exact hsize
  | case3 cursor hcursor => exact ⟨rfl, fun hlt => absurd hlt hcursor⟩

/-- A cursor at a chunk that holds bytes is where passing empty chunks leaves it. -/
theorem passEmpty_eq {index : Index} {cursor : Nat} (h : index.sizeAt cursor ≠ 0) :
    index.passEmpty cursor = cursor := by
  have hcursor := lt_of_sizeAt (Nat.pos_of_ne_zero h)
  rw [sizeAt_eq hcursor] at h
  rw [passEmpty, dif_pos hcursor, if_neg h]

/-- Empty chunks are passed at once. -/
theorem passEmpty_passEmpty (index : Index) (cursor : Nat) :
    index.passEmpty (index.passEmpty cursor) = index.passEmpty cursor := by
  by_cases hlt : index.passEmpty cursor < index.extents.size
  · exact passEmpty_eq ((index.passEmpty_spec cursor).2 hlt)
  · rw [passEmpty, dif_neg hlt]

/-- Once the skipped chunks are passed and then the empty ones, nothing more is skipped. -/
theorem passSkipped_passEmpty (index : Index) (cursor skip : Nat) :
    index.passSkipped (index.passEmpty (index.passSkipped cursor skip).1)
        (index.passSkipped cursor skip).2 =
      (index.passEmpty (index.passSkipped cursor skip).1, (index.passSkipped cursor skip).2) := by
  have hinside := index.passSkipped_inside cursor skip
  generalize index.passSkipped cursor skip = place at hinside ⊢
  refine passSkipped_eq fun hskip hlt => ?_
  by_cases hcursor : place.1 < index.extents.size
  · have hsize := hinside hskip hcursor
    rw [passEmpty_eq (Nat.ne_of_gt (Nat.lt_of_le_of_lt (Nat.zero_le _) hsize))]
    exact hsize
  · rw [passEmpty, dif_neg hcursor] at hlt
    exact absurd hlt hcursor

end Index

end ChunkedFile
