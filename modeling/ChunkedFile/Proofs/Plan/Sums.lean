import ChunkedFile.Proofs.Stream.Opening

/-!
# Sums of sizes

The sizes of a plan are added up in four ways: a check that tells the chunk with which the sum
passes the greatest size, a total that is held there, and the same two for an index. All agree with
the exact sum as far as it is a size, and past it each says so in its own way.
-/

namespace ChunkedFile

namespace Plan

variable {plan : Plan}

/-- Adding chunks one after the other is adding their sizes, but for the words of the refusal. -/
theorem toOption_foldlM_addChunk (chunks : List ChunkRef) (before : Nat) :
    (chunks.foldlM addChunk before).toOption =
      chunks.foldlM (fun total chunk => Size.add? total chunk.size.toNat) before := by
  induction chunks generalizing before with
  | nil => rfl
  | cons chunk rest ih =>
    rw [List.foldlM_cons, List.foldlM_cons, addChunk]
    cases Size.add? before chunk.size.toNat with
    | none => rfl
    | some total => exact ih total

/-- The sizes of the chunks add up to the exact size of the plan. -/
theorem sum_map_size (plan : Plan) : (plan.chunks.map (·.size.toNat)).sum = plan.exactSize := by
  rw [exactSize, sizes, List.map_map]
  rfl

/-- A plan is valid exactly where its sizes have a sum, and then the sum is told. -/
theorem validate_eq_ok_iff {total : Nat} :
    plan.validate = .ok total ↔ plan.Fits ∧ total = plan.exactSize := by
  have htold : plan.validate = .ok total ↔ plan.validate.toOption = some total := by
    cases plan.validate <;> simp [Except.toOption]
  have hfold := Size.foldlM_add?_eq_some_iff (fun chunk : ChunkRef => chunk.size.toNat) plan.chunks
    (Nat.zero_le Size.limit) total
  rw [← toOption_foldlM_addChunk, ← validate, Nat.zero_add, plan.sum_map_size] at hfold
  exact htold.trans hfold

/-- The total is the exact sum, held at the greatest size. -/
theorem totalSize_eq_min (plan : Plan) : plan.totalSize = min plan.exactSize Size.limit := by
  rw [totalSize, Size.total_eq_min]
  rfl

/-- The total of sizes that have a sum is that sum. -/
theorem Fits.totalSize_eq (h : plan.Fits) : plan.totalSize = plan.exactSize := by
  rw [totalSize_eq_min]
  exact Nat.min_eq_left h

/-- Sizes without a sum are refused at the first chunk that passes the limit. -/
theorem error_of_limit_lt {chunks : List ChunkRef} {total : Nat} (htotal : total ≤ Size.limit)
    (h : Size.limit < total + (chunks.map (·.size.toNat)).sum) :
    ∃ (before : List ChunkRef) (chunk : ChunkRef) (behind : List ChunkRef),
      chunks = before ++ chunk :: behind ∧
      total + (before.map (·.size.toNat)).sum ≤ Size.limit ∧
      Size.limit < total + (before.map (·.size.toNat)).sum + chunk.size.toNat ∧
      chunks.foldlM addChunk total =
        .error (.parse (.sizesOverflow chunk.address chunk.size.toNat)) := by
  induction chunks generalizing total with
  | nil =>
    simp only [List.map_nil, List.sum_nil] at h
    omega
  | cons chunk chunks ih =>
    rw [List.map_cons, List.sum_cons, ← Nat.add_assoc] at h
    by_cases hfit : total + chunk.size.toNat ≤ Size.limit
    · obtain ⟨before, last, behind, rfl, hle, hlt, herror⟩ := ih hfit h
      refine ⟨chunk :: before, last, behind, rfl, ?_, ?_, ?_⟩
      · rwa [List.map_cons, List.sum_cons, ← Nat.add_assoc]
      · rwa [List.map_cons, List.sum_cons, ← Nat.add_assoc]
      · rw [List.foldlM_cons, addChunk, Size.add?, if_pos hfit]
        exact herror
    · refine ⟨[], chunk, chunks, rfl, by simpa using htotal, by simpa using hfit, ?_⟩
      rw [List.foldlM_cons, addChunk, Size.add?, if_neg hfit]
      rfl

/-- A plan whose sizes have no sum is refused at the first chunk that passes the limit. -/
theorem error_of_not_fits (h : ¬ plan.Fits) :
    ∃ (before : List ChunkRef) (chunk : ChunkRef) (behind : List ChunkRef),
      plan.chunks = before ++ chunk :: behind ∧
      (before.map (·.size.toNat)).sum ≤ Size.limit ∧
      Size.limit < (before.map (·.size.toNat)).sum + chunk.size.toNat ∧
      plan.validate = .error (.parse (.sizesOverflow chunk.address chunk.size.toNat)) := by
  rw [Fits, ← sum_map_size, Nat.not_le, ← Nat.zero_add (List.sum _)] at h
  have hfirst := error_of_limit_lt (Nat.zero_le _) h
  simp only [Nat.zero_add] at hfirst
  exact hfirst

/-- The four sums agree. The check and the index succeed exactly where the exact sum is below 2^64,
and all then tell that sum. From there on the check names the first chunk with which the running sum
is too large, the index is refused, and the total is the greatest size. -/
theorem sizes_accounted (plan : Plan) :
    (∀ total, plan.validate = .ok total ↔ plan.exactSize < 2 ^ 64 ∧ total = plan.exactSize) ∧
    (∀ index, Index.ofSizes? plan.sizes = .ok index ↔
      plan.exactSize < 2 ^ 64 ∧ index = .ofSizes plan.sizes) ∧
    (plan.exactSize < 2 ^ 64 →
      plan.totalSize = plan.exactSize ∧ (Index.ofSizes plan.sizes).total = plan.exactSize) ∧
    (2 ^ 64 ≤ plan.exactSize →
      (∃ (before : List ChunkRef) (chunk : ChunkRef) (behind : List ChunkRef) (error : Error),
        plan.chunks = before ++ chunk :: behind ∧
        (before.map (·.size.toNat)).sum < 2 ^ 64 ∧
        2 ^ 64 ≤ (before.map (·.size.toNat)).sum + chunk.size.toNat ∧
        plan.validate = .error error ∧
        error = .parse (.sizesOverflow chunk.address chunk.size.toNat) ∧
        error.message =
          s!"Parse error: chunk sizes overflow at {chunk.address} ({chunk.size} bytes)") ∧
      Index.ofSizes? plan.sizes = .error (.parse (.sizesPastLimit plan.chunks.length)) ∧
      plan.totalSize = 2 ^ 64 - 1) := by
  have hlimit : 2 ^ 64 = Size.limit + 1 := rfl
  simp only [hlimit, Nat.lt_succ_iff, Nat.succ_le_iff]
  refine ⟨fun total => validate_eq_ok_iff, fun index => Index.ofSizes?_eq_ok_iff, ?_, ?_⟩
  · intro hfits
    refine ⟨Fits.totalSize_eq hfits, ?_⟩
    rw [(Index.laid_ofSizes plan.sizes).total, Index.sizes_ofSizes]
    exact Nat.min_eq_left hfits
  · intro hlarge
    obtain ⟨before, chunk, behind, hchunks, hle, hlt, herror⟩ :=
      error_of_not_fits (Nat.not_le.mpr hlarge)
    refine ⟨⟨before, chunk, behind, _, hchunks, hle, hlt, herror, rfl, rfl⟩, ?_, ?_⟩
    · rw [Index.ofSizes?_eq_error_iff, sizes, List.length_map]
      exact ⟨hlarge, rfl⟩
    · rw [totalSize_eq_min]
      exact Nat.min_eq_right hlarge.le

end Plan

/-- Sizes with an empty chunk among them whose sum is the greatest size. -/
def widestPlan : Plan := { chunks := [⟨"/a", 18446744073709551614⟩, ⟨"/b", 0⟩, ⟨"/c", 1⟩] }

/-- The same sizes with one byte more, and chunks behind it. -/
def overflowingPlan : Plan := { chunks := widestPlan.chunks ++ [⟨"/d", 1⟩, ⟨"/e", 0⟩, ⟨"/f", 2⟩] }

/-- The greatest size is a sum, and the byte past it is refused in the chunk that holds it. -/
theorem sizes_accounted_overflowing :
    widestPlan.exactSize < 2 ^ 64 ∧ widestPlan.validate = .ok 18446744073709551615 ∧
      widestPlan.totalSize = 18446744073709551615 ∧
      2 ^ 64 ≤ overflowingPlan.exactSize ∧
      (∃ error, overflowingPlan.validate = .error error ∧
        error.message = "Parse error: chunk sizes overflow at /d (1 bytes)") ∧
      Index.ofSizes? overflowingPlan.sizes = .error (.parse (.sizesPastLimit 6)) ∧
      overflowingPlan.totalSize = 18446744073709551615 := by
  have hfits : widestPlan.exactSize < 2 ^ 64 := by decide
  have hlarge : 2 ^ 64 ≤ overflowingPlan.exactSize := by decide
  obtain ⟨hvalid, -, hsum, -⟩ := widestPlan.sizes_accounted
  obtain ⟨-, -, -, hrefused⟩ := overflowingPlan.sizes_accounted
  obtain ⟨⟨-, -, -, error, -, -, -, hvalidate, -⟩, hindex, htotal⟩ := hrefused hlarge
  refine ⟨hfits, (hvalid _).mpr ⟨hfits, by decide⟩, ?_, hlarge, ⟨error, hvalidate, ?_⟩, hindex,
    htotal⟩
  · rw [(hsum hfits).1]
    decide
  · have hnamed : overflowingPlan.validate = .error (.parse (.sizesOverflow "/d" 1)) := rfl
    rw [hvalidate, Except.error.injEq] at hnamed
    rw [hnamed]
    rfl

end ChunkedFile
