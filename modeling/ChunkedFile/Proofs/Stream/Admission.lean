import ChunkedFile.Proofs.Stream.Opening

/-!
# Which ranges are opened

A range is opened where it begins in the file, or at its first byte where the file is empty, and
where the digest that it is to be checked against consists of the digits of its algorithm. Whether
it is opened is known before anything is asked for or counted.
-/

namespace ChunkedFile

/-- The recorded text, without blanks around it and in lower case, consists of exactly the digits of
a digest. -/
def ExpectedDigest.WellFormed (digest : ExpectedDigest) : Prop :=
  Verifier.isDigest digest.algorithm (Text.asciiLower (Text.trim digest.hex)).toList = true

instance (digest : ExpectedDigest) : Decidable digest.WellFormed :=
  inferInstanceAs (Decidable (_ = true))

/-- A digest has a verifier exactly where it is well-formed. -/
theorem ExpectedDigest.exists_ofHex_iff {digest : ExpectedDigest} :
    (∃ v, Verifier.ofHex digest.algorithm digest.hex = .ok v) ↔ digest.WellFormed := by
  simp only [Verifier.ofHex, WellFormed]
  constructor
  · rintro ⟨v, hv⟩
    by_contra hdigits
    rw [if_neg hdigits] at hv
    cases hv
  · intro hdigits
    rw [if_pos hdigits]
    exact ⟨_, rfl⟩

namespace Session

variable {s t : Session} {start : Nat}

/-- A session can be placed at its first byte, and wherever there is a byte. -/
theorem exists_skipTo (h : start = 0 ∨ start < s.table.total) : ∃ t, s.skipTo start = .ok t := by
  rw [skipTo, if_neg (by omega)]
  exact ⟨_, rfl⟩

/-- Placing a session sets its start, its cursor and its skip. -/
theorem of_skipTo (h : s.skipTo start = .ok t) :
    t = { s with start, cursor := t.cursor, skip := t.skip } := by
  rw [skipTo] at h
  split at h
  · cases h
  · rw [Except.ok.injEq] at h
    rw [← h]

/-- A session is not placed at or behind the end of its file. -/
theorem skipTo_of_not (h : ¬ (start = 0 ∨ start < s.table.total)) :
    s.skipTo start = .error (.range (.beyondEnd start s.table.total)) := by
  rw [skipTo, if_pos (by omega)]

end Session

namespace Link

variable {link : Link} {range : ByteRange}

/-- A link has a verifier for every range, or needs none, if its digest is well-formed. -/
theorem exists_verifierFor (hdigest : ∀ digest, link.digest = some digest → digest.WellFormed)
    (range : ByteRange) : ∃ verifier, link.verifierFor range = .ok verifier := by
  rw [verifierFor]
  cases hrecorded : link.digest with
  | none => exact ⟨none, rfl⟩
  | some digest =>
    simp only
    split
    · obtain ⟨v, hv⟩ := digest.exists_ofHex_iff.mpr (hdigest digest hrecorded)
      rw [hv]
      exact ⟨some v, rfl⟩
    · exact ⟨none, rfl⟩

/-- A range that begins in the file has a stream. -/
theorem exists_openStream (hdigest : ∀ digest, link.digest = some digest → digest.WellFormed)
    (hstart : range.start = 0 ∨ range.start.toNat < link.size) :
    ∃ stream, link.openStream range = .ok stream := by
  have hoffset : range.start.toNat = 0 ∨ range.start.toNat < link.size :=
    hstart.imp_left (congrArg UInt64.toNat)
  let new : Session := { table := link.table, policy := link.policy, proxied := link.proxied }
  obtain ⟨session, hskip⟩ : ∃ t, new.skipTo range.start.toNat = .ok t :=
    Session.exists_skipTo hoffset
  obtain ⟨verifier, hverifier⟩ := exists_verifierFor hdigest range
  rw [openStream, hskip, hverifier]
  exact ⟨_, rfl⟩

/-- A range that does not begin in the file has none. -/
theorem openStream_of_not (hstart : ¬ (range.start = 0 ∨ range.start.toNat < link.size)) :
    link.openStream range = .error (.range (.beyondEnd range.start.toNat link.size)) := by
  have hoffset : ¬ (range.start.toNat = 0 ∨ range.start.toNat < link.size) :=
    fun h => hstart (h.imp_left fun hzero => UInt64.toNat.inj hzero)
  rw [openStream, Session.skipTo_of_not hoffset]
  rfl

variable {m : Type → Type} [Monad m]

/-- Opening a range that has a stream counts a session and does nothing else. -/
theorem openRange_of_ok (backend : Backend m) {stream : RangeStream}
    (h : link.openStream range = .ok stream) :
    link.openRange backend range = do
      backend.record .sessionOpened
      return .ok ⟨stream, ReleaseSet.add {} .session⟩ := by
  rw [openRange, h]

/-- Opening a range that has none does nothing at all. -/
theorem openRange_of_error (backend : Backend m) {e : Error} (h : link.openStream range = .error e) :
    link.openRange backend range = pure (.error e) := by
  rw [openRange, h]

end Link

end ChunkedFile
