import ChunkedFile.Proofs.Index.Offsets
import ChunkedFile.Proofs.Index.Uniform

/-!
# Where a byte lies

Chunks that are laid end to end leave one chunk for each byte of the file: the one whose exact
offset is at or before the byte and whose end is behind it. Binary search finds it by the recorded
positions. They are held at the greatest size, but the file counts no byte there, so what is held
lies behind every byte that is looked for. Of parts of one size, the chunk of a byte and the place
in it are a quotient and a remainder.
-/

namespace ChunkedFile

/-- The exact sum of the sizes before a chunk. -/
def Size.sumBefore (sizes : List UInt64) (i : Nat) : Nat := ((sizes.take i).map UInt64.toNat).sum

namespace Index

variable {index : Index} {sizes : List UInt64} {total part : UInt64} {e f : Extent} {i j x w : Nat}

/-- An extent is found exactly at the places below the number of chunks. -/
theorem get?_eq_some_iff :
    index.get? i = some e ↔ ∃ hi : i < index.extents.size, index.extents[i] = e :=
  Array.getElem?_eq_some_iff

/-- A number is below the size of a chunk only where there is one. -/
theorem lt_sizeAt_iff : w < index.sizeAt i ↔ ∃ e, index.get? i = some e ∧ w < e.size := by
  constructor
  · intro hlt
    have hi := lt_of_sizeAt hlt
    rw [sizeAt_eq hi] at hlt
    exact ⟨_, get?_eq_some_iff.mpr ⟨hi, rfl⟩, hlt⟩
  · rintro ⟨e, he, hlt⟩
    obtain ⟨hi, rfl⟩ := get?_eq_some_iff.mp he
    rwa [sizeAt_eq hi]

/-- The index of chunks of some sizes: each begins at the exact sum of the sizes before it, held at
the greatest size, and ends where the next one begins, the last one at the total. -/
structure LaysOut (index : Index) (sizes : List UInt64) : Prop where
  count : index.size = sizes.length
  extent : ∀ (i : Nat) (hi : i < sizes.length),
    index.get? i = some ⟨min (Size.sumBefore sizes i) Size.limit, sizes[i].toNat⟩
  next : ∀ i e f, index.get? i = some e → index.get? (i + 1) = some f → e.stop = f.position
  last : ∀ i e, index.get? i = some e → i + 1 = sizes.length → e.stop = index.total
  total : index.total = min (sizes.map UInt64.toNat).sum Size.limit

theorem offset_ofSizes (sizes : List UInt64) (i : Nat) :
    (ofSizes sizes).offset i = Size.sumBefore sizes i := by
  rw [offset, sizes_ofSizes, Size.sumBefore, List.map_take]

/-- There are as many extents as sizes. -/
theorem size_ofSizes (sizes : List UInt64) : (ofSizes sizes).extents.size = sizes.length := by
  rw [← length_sizes, sizes_ofSizes, List.length_map]

theorem sizeAt_ofSizes (hi : i < sizes.length) : (ofSizes sizes).sizeAt i = sizes[i].toNat := by
  simp [sizeAt, List.getD_eq_getElem?_getD, hi]

/-- A chunk ends where the next one begins. -/
theorem Laid.stop_eq_position (h : index.Laid) (he : index.get? i = some e)
    (hf : index.get? (i + 1) = some f) : e.stop = f.position := by
  obtain ⟨hi, rfl⟩ := get?_eq_some_iff.mp he
  obtain ⟨hnext, rfl⟩ := get?_eq_some_iff.mp hf
  rw [h.stop hi, h.position (i + 1) hnext]

/-- The last chunk ends with the file. -/
theorem Laid.stop_eq_total (h : index.Laid) (he : index.get? i = some e)
    (hlast : i + 1 = index.extents.size) : e.stop = index.total := by
  obtain ⟨hi, rfl⟩ := get?_eq_some_iff.mp he
  rw [h.stop hi, hlast, index.offset_of_size_le (Nat.le_refl _), h.total]

/-- An index that is built from sizes lays them out. -/
theorem laysOut_ofSizes (sizes : List UInt64) : (ofSizes sizes).LaysOut sizes where
  count := size_ofSizes sizes
  extent := by
    intro i hi
    have hi' : i < (ofSizes sizes).extents.size := by rwa [size_ofSizes]
    have hposition := (laid_ofSizes sizes).position i hi'
    have hsize := sizeAt_eq hi'
    rw [offset_ofSizes] at hposition
    rw [sizeAt_ofSizes hi] at hsize
    rw [get?_eq_some_iff, hsize, ← hposition]
    exact ⟨hi', rfl⟩
  next := fun _ _ _ he hf => (laid_ofSizes sizes).stop_eq_position he hf
  last := fun _ _ he hlast =>
    (laid_ofSizes sizes).stop_eq_total he (hlast.trans (size_ofSizes sizes).symm)
  total := by rw [(laid_ofSizes sizes).total, sizes_ofSizes]

/-- The byte at an offset lies in one chunk only. -/
theorem eq_of_between (hi : index.offset i ≤ x ∧ x < index.offset (i + 1))
    (hj : index.offset j ≤ x ∧ x < index.offset (j + 1)) : i = j := by
  rcases lt_trichotomy i j with hlt | heq | hlt
  · have hmono := index.offset_mono (Nat.add_one_le_of_lt hlt)
    omega
  · exact heq
  · have hmono := index.offset_mono (Nat.add_one_le_of_lt hlt)
    omega

/-- A byte of the file is located in the chunk that it lies in, at its distance from the offset. -/
theorem Laid.locate_eq_some_iff (h : index.Laid) : index.locate x = some (i, w) ↔
    x < index.total ∧ (index.offset i ≤ x ∧ x < index.offset (i + 1)) ∧ w = x - index.offset i := by
  constructor
  · intro hlocate
    obtain ⟨hx, hw⟩ := h.of_locate_eq_some hlocate
    have hsucc := index.offset_succ i
    refine ⟨?_, by omega, by omega⟩
    apply Nat.lt_of_not_le
    intro htotal
    rw [h.locate_eq_none_iff.mpr htotal] at hlocate
    cases hlocate
  · rintro ⟨hx, hi, rfl⟩
    obtain ⟨j, hle, hlt, hlocate⟩ := h.locate_of_lt hx
    rw [eq_of_between hi ⟨hle, hlt⟩]
    exact hlocate

/-- Whatever the sizes, they are laid out in order, and every byte of the file is located: it lies
in one chunk only, by the exact sums, and is found there, so no empty chunk is found. From the total
on no byte is. -/
theorem bytes_located (sizes : List UInt64) :
    (ofSizes sizes).LaysOut sizes ∧ ∀ x,
      ((ofSizes sizes).locate x = none ↔ (ofSizes sizes).total ≤ x) ∧
      (x < (ofSizes sizes).total → ∃ (i : Nat) (hi : i < sizes.length),
        (∀ j, (Size.sumBefore sizes j ≤ x ∧ x < Size.sumBefore sizes (j + 1)) ↔ j = i) ∧
        (ofSizes sizes).locate x = some (i, x - Size.sumBefore sizes i) ∧
        x - Size.sumBefore sizes i < sizes[i].toNat) := by
  have hlaid := laid_ofSizes sizes
  refine ⟨laysOut_ofSizes sizes, fun x => ⟨hlaid.locate_eq_none_iff, fun hx => ?_⟩⟩
  obtain ⟨i, hle, hlt, hlocate⟩ := hlaid.locate_of_lt hx
  obtain ⟨-, hinside⟩ := hlaid.of_locate_eq_some hlocate
  have hi : i < sizes.length := by
    rw [← size_ofSizes]
    exact lt_of_sizeAt hinside
  rw [sizeAt_ofSizes hi] at hinside
  simp only [← offset_ofSizes]
  refine ⟨i, hi, fun j => ⟨fun hj => eq_of_between hj ⟨hle, hlt⟩, ?_⟩, hlocate, hinside⟩
  rintro rfl
  exact ⟨hle, hlt⟩

/-- Sizes with empty chunks among them and a sum past the greatest size. -/
def heldSizes : List UInt64 := [3, 0, 18446744073709551615, 0]

/-- The byte behind the empty chunk is the first of the chunk after it, and the last byte of the
file lies in a chunk whose end is held. -/
theorem bytes_located_heldSizes :
    (ofSizes heldSizes).total = 18446744073709551615 ∧
      (ofSizes heldSizes).locate 3 = some (2, 0) ∧
      (ofSizes heldSizes).locate 18446744073709551614 = some (2, 18446744073709551611) ∧
      (ofSizes heldSizes).locate 18446744073709551615 = none := by
  obtain ⟨hlays, hbytes⟩ := bytes_located heldSizes
  have htotal : (ofSizes heldSizes).total = 18446744073709551615 := by
    rw [hlays.total]
    decide
  have hfound (x : Nat) (hx : x < 18446744073709551615)
      (hplace : Size.sumBefore heldSizes 2 ≤ x ∧ x < Size.sumBefore heldSizes 3) :
      (ofSizes heldSizes).locate x = some (2, x - Size.sumBefore heldSizes 2) := by
    obtain ⟨i, -, hunique, hlocate, -⟩ := (hbytes x).2 (htotal ▸ hx)
    rw [(hunique 2).mp hplace]
    exact hlocate
  exact ⟨htotal, hfound 3 (by decide) (by decide), hfound _ (by decide) (by decide),
    (hbytes _).1.mpr htotal.le⟩

/-- The index of a file that is cut into parts: as many as its size needs, each behind the full
parts before it, all of them full but the last, which is not empty. The byte at an offset lies in
the part of the quotient, at the remainder. -/
structure Parted (index : Index) (size part : Nat) : Prop where
  count : index.size = size ⌈/⌉ part
  total : index.total = size
  exact : index.sizes.sum = size
  position : ∀ i e, index.get? i = some e → e.position = part * i
  full : ∀ i e, index.get? i = some e → i + 1 < index.size → e.size = part
  last : ∀ i e, index.get? i = some e → i + 1 = index.size → 0 < e.size ∧ e.size ≤ part
  located : ∀ x < size, index.locate x = some (x / part, x % part)

/-- There are as many parts as are needed to reach the size. -/
theorem size_uniform_le_iff (hpart : part ≠ 0) :
    (ofSizes (uniformSizes total part)).extents.size ≤ i ↔ total.toNat ≤ part.toNat * i := by
  rw [size_ofSizes, length_uniformSizes hpart, ceilDiv_le_iff_le_mul (toNat_part_pos hpart)]

/-- A part takes what is left of the file, but at most a full part; nothing is left behind
the last. -/
theorem sizeAt_uniform (hpart : part ≠ 0) (i : Nat) :
    (ofSizes (uniformSizes total part)).sizeAt i =
      min part.toNat (total.toNat - part.toNat * i) := by
  by_cases hi : i < (uniformSizes total part).length
  · rw [sizeAt_ofSizes hi, toNat_getElem_uniformSizes hpart hi]
  · have hend : (ofSizes (uniformSizes total part)).extents.size ≤ i := by
      rw [size_ofSizes]
      exact Nat.le_of_not_lt hi
    have hnothing := (size_uniform_le_iff hpart).mp hend
    rw [sizeAt_eq_zero hend]
    omega

/-- The parts before one are full, or all of the file. -/
theorem offset_uniform (hpart : part ≠ 0) (i : Nat) :
    (ofSizes (uniformSizes total part)).offset i = min (part.toNat * i) total.toNat := by
  induction i with
  | zero => rw [offset_zero, Nat.mul_zero, Nat.zero_min]
  | succ i ih =>
    rw [offset_succ, ih, sizeAt_uniform hpart, Nat.mul_succ]
    omega

/-- The sizes of equal parts are laid out as parts of that size. -/
theorem parted_uniform (hpart : part ≠ 0) :
    (ofSizes (uniformSizes total part)).Parted total.toNat part.toNat := by
  have hlaid := laid_ofSizes (uniformSizes total part)
  have hsum : (ofSizes (uniformSizes total part)).sizes.sum = total.toNat := by
    rw [sizes_ofSizes, sum_uniformSizes]
  have hfits := Size.toNat_le_limit total
  have htotal : (ofSizes (uniformSizes total part)).total = total.toNat := by
    rw [hlaid.total_eq_sum (hsum.trans_le hfits), hsum]
  -- before a part that there is, something of the file is left
  have hleft (i : Nat) (hi : i < (ofSizes (uniformSizes total part)).extents.size) :
      part.toNat * i < total.toNat :=
    Nat.lt_of_not_le fun hle => absurd hi (Nat.not_lt.mpr ((size_uniform_le_iff hpart).mpr hle))
  constructor
  case count => exact (size_ofSizes _).trans (length_uniformSizes hpart)
  case total => exact htotal
  case exact => exact hsum
  case position =>
    intro i e he
    obtain ⟨hi, rfl⟩ := get?_eq_some_iff.mp he
    have hlt := hleft i hi
    rw [hlaid.position i hi, offset_uniform hpart]
    omega
  case full =>
    intro i e he hnext
    obtain ⟨hi, rfl⟩ := get?_eq_some_iff.mp he
    have hlt := hleft (i + 1) hnext
    rw [Nat.mul_succ] at hlt
    rw [← sizeAt_eq hi, sizeAt_uniform hpart]
    omega
  case last =>
    intro i e he _
    obtain ⟨hi, rfl⟩ := get?_eq_some_iff.mp he
    have hlt := hleft i hi
    have hpos := toNat_part_pos hpart
    rw [← sizeAt_eq hi, sizeAt_uniform hpart]
    omega
  case located =>
    intro x hx
    have hsplit := Nat.div_add_mod x part.toNat
    have hrest := Nat.mod_lt x (toNat_part_pos hpart)
    rw [hlaid.locate_eq_some_iff, htotal, offset_uniform hpart, offset_uniform hpart, Nat.mul_succ]
    omega

/-- A uniform index is that of its sizes wherever the number of chunks can be held. -/
theorem uniform?_eq (total part : UInt64) : uniform? total part =
    (uniformCount? total part).map fun _ => ofSizes (uniformSizes total part) := by
  rw [uniform?]
  cases uniformCount? total part <;> rfl

/-- A size of zero is refused as a setting, parts past the limit as a file; every other cut has an
index. -/
theorem uniform_parted (total part : UInt64) :
    ((∃ fault, uniform? total part = .error (.config fault)) ↔ part = 0) ∧
    ((∃ fault, uniform? total part = .error (.parse fault)) ↔
      part ≠ 0 ∧ 10000000 < total.toNat ⌈/⌉ part.toNat) ∧
    (part ≠ 0 → total.toNat ⌈/⌉ part.toNat ≤ 10000000 →
      ∃ index, uniform? total part = .ok index ∧ index.Parted total.toNat part.toNat) := by
  have hrefused (error : Error) : uniform? total part = .error error ↔
      uniformCount? total part = .error error := by
    rw [uniform?_eq]
    cases uniformCount? total part <;> simp [Except.map]
  simp only [hrefused, uniformCount?_eq_error_iff]
  refine ⟨?_, ?_, fun hpart hlimit => ?_⟩
  · simp
  · simp [partLimit]
  · have hcount := (uniformCount?_eq_ok_iff hpart).mpr ⟨hlimit, rfl⟩
    refine ⟨_, ?_, parted_uniform hpart⟩
    rw [uniform?_eq, hcount]
    rfl

/-- The largest file in parts of two tebibytes: the last byte lies in the last part, which is not
full. -/
theorem uniform_parted_largest :
    ∃ index, uniform? 18446744073709551615 2199023255552 = .ok index ∧ index.size = 8388608 ∧
      index.total = 18446744073709551615 ∧
      index.locate 18446744073709551614 = some (8388607, 2199023255550) := by
  obtain ⟨-, -, hindex⟩ := uniform_parted 18446744073709551615 2199023255552
  obtain ⟨index, hcut, hparted⟩ := hindex (by decide) (by decide)
  refine ⟨index, hcut, ?_, hparted.total, ?_⟩
  · rw [hparted.count]
    decide
  · rw [hparted.located _ (by decide)]
    decide

end Index

end ChunkedFile
