import ChunkedFile.Proofs.Hash.Streaming
import ChunkedFile.Proofs.Stream.Opening

/-!
# The verdict of a release

A verifier is given the bytes of every read, whatever fails in between, so at any time it has taken
in exactly what was delivered. The release of a range closes its session, which asks the verifier
where the whole file was delivered: its verdict depends on the delivered bytes only, not on how the
reads cut them or on what the store answered.
-/

namespace ChunkedFile

/-- A range is the whole file, which is to be checked against a recorded digest. -/
structure Link.Checks (link : Link) (range : ByteRange) (digest : ExpectedDigest) : Prop where
  verify : link.verify = true
  recorded : link.digest = some digest
  fromStart : range.start = 0
  toEnd : ∀ length, range.length = some length → link.size ≤ length.toNat

/-- The comparison of some bytes with a recorded digest, whose digits are taken without blanks
around them and in lower case. -/
def ExpectedDigest.compare (digest : ExpectedDigest) (bytes : ByteArray) : Except Error Unit :=
  let expected := Text.asciiLower (Text.trim digest.hex)
  let actual := digest.algorithm.digestHex bytes
  if actual = expected then .ok () else .error (.integrity expected actual)

namespace ExpectedDigest

variable {digest : ExpectedDigest} {bytes : ByteArray}

/-- A comparison comes to nothing but the two digests where they differ. -/
theorem compare_eq_error_iff {expected actual : String} :
    digest.compare bytes = .error (.integrity expected actual) ↔
      expected = Text.asciiLower (Text.trim digest.hex) ∧
        actual = digest.algorithm.digestHex bytes ∧ actual ≠ expected := by
  simp only [compare]
  by_cases hsame : digest.algorithm.digestHex bytes = Text.asciiLower (Text.trim digest.hex)
  · rw [if_pos hsame]
    simp only [reduceCtorEq, false_iff]
    rintro ⟨rfl, rfl, hne⟩
    exact hne hsame
  · rw [if_neg hsame, Except.error.injEq, Error.integrity.injEq]
    constructor
    · rintro ⟨rfl, rfl⟩
      exact ⟨rfl, rfl, hsame⟩
    · rintro ⟨rfl, rfl, -⟩
      exact ⟨rfl, rfl⟩

/-- A comparison of digests fails in one way only. -/
theorem compare_cases (digest : ExpectedDigest) (bytes : ByteArray) :
    digest.compare bytes = .ok () ∨
      ∃ expected actual, digest.compare bytes = .error (.integrity expected actual) := by
  simp only [compare]
  split
  · exact Or.inl rfl
  · exact Or.inr ⟨_, _, rfl⟩

end ExpectedDigest

namespace Session

variable {s t : Session} {n : Nat} {steps : List Step} {result : Except Error ByteArray}

/-- A read passes what it brought on to the verifier. -/
theorem ReadRun.verifier (h : ReadRun s n steps result t) :
    t.verifier = s.verifier.map (·.update (bytesOf result)) := by
  have hnothing := Verifier.map_update_empty s.verifier
  cases h with
  | closed | nothing => exact hnothing.symm
  | overrun | ended | failed | refused => exact settle_verifier.trans hnothing.symm
  | buffered => simp only [deliver, bytesOf, settle_verifier]
  | fetched _ _ i size address fetching bytes taken hneed hfetch haccept =>
    obtain ⟨-, rfl⟩ := accept_eq_ok_iff.mp haccept
    simp only [deliver, bytesOf, settle_verifier]

/-- The verdict of a session whose file was handed out as a whole is that of its verifier. -/
theorem shut_of_complete {v : Verifier} (hverifier : s.verifier = some v) (hstart : s.start = 0)
    (hdelivered : s.delivered = s.table.total) : s.shut.1 = v.verify := by
  simp [shut, hverifier, hstart, hdelivered]

end Session

/-- The verifier of a stream has taken in what the reads brought. -/
theorem RangeStream.Reads.verifier {first stream : RangeStream} {rounds : List Round}
    (h : first.Reads rounds stream) :
    stream.session.verifier = first.session.verifier.map (·.update (delivered rounds)) := by
  induction h with
  | nil => exact (Verifier.map_update_empty first.session.verifier).symm
  | @snoc rounds stream n steps result next before read ih =>
    have hread : next.session.verifier =
        stream.session.verifier.map (·.update (bytesOf result)) := by
      rcases read_returns read with ⟨-, -, rfl, rfl⟩ | ⟨-, session, hrun, rfl⟩
      · exact (Verifier.map_update_empty next.session.verifier).symm
      · exact hrun.verifier
    rw [hread, ih, Option.map_map, delivered_append_singleton]
    congr
    funext v
    exact v.update_update _ _

namespace Link

variable {link : Link} {plan : Plan} {range : ByteRange}

/-- A range from the beginning has no bound exactly where it reaches the end of the file. -/
theorem boundedLength_eq_none_iff (hstart : range.start = 0) :
    link.boundedLength range = none ↔
      ∀ length, range.length = some length → link.size ≤ length.toNat := by
  rw [boundedLength]
  cases range.length with
  | none => simp
  | some length =>
    have hlength := Size.toNat_le_limit length
    have hadd : Size.add range.start.toNat length.toNat = length.toNat := by
      rw [hstart, Size.add, UInt64.toNat_zero]
      omega
    simp [hadd]

/-- A range is opened with a verifier where it is to be checked, and without one otherwise. -/
theorem verifierFor_cases {verifier : Option Verifier} (h : link.verifierFor range = .ok verifier) :
    (∃ digest v, link.Checks range digest ∧
      Verifier.ofHex digest.algorithm digest.hex = .ok v ∧ verifier = some v) ∨
    ((∀ digest, ¬ link.Checks range digest) ∧ verifier = none) := by
  rw [verifierFor] at h
  cases hdigest : link.digest with
  | none =>
    simp only [hdigest, Except.ok.injEq] at h
    refine Or.inr ⟨fun digest hchecks => ?_, h.symm⟩
    cases hdigest.symm.trans hchecks.recorded
  | some digest =>
    simp only [hdigest] at h
    by_cases hwhole : link.verify ∧ range.start = 0 ∧ link.boundedLength range = none
    · obtain ⟨hverify, hstart, hbound⟩ := hwhole
      have htoEnd := (link.boundedLength_eq_none_iff hstart).mp hbound
      rw [if_pos ⟨hverify, hstart, hbound⟩] at h
      cases hhex : Verifier.ofHex digest.algorithm digest.hex with
      | error e => simp [hhex, Except.map] at h
      | ok v =>
        simp only [hhex, Except.map, Except.ok.injEq] at h
        exact Or.inl ⟨digest, v, ⟨hverify, hdigest, hstart, htoEnd⟩, hhex, h.symm⟩
    · rw [if_neg hwhole, Except.ok.injEq] at h
      refine Or.inr ⟨fun _ hchecks => hwhole ⟨hchecks.verify, hchecks.fromStart, ?_⟩, h.symm⟩
      exact (link.boundedLength_eq_none_iff hchecks.fromStart).mpr hchecks.toEnd

end Link

namespace Opened

/-- The release of a range that still holds its session closes the session. -/
theorem release_eq {m : Type → Type} [Monad m] [LawfulMonad m] (backend : Backend m)
    (stream : RangeStream) :
    release backend ⟨stream, ReleaseSet.add {} .session⟩ = do
      let (verdict, session) ← stream.session.close backend
      return (verdict, ⟨{ stream with session }, {}⟩) := by
  simp only [release, ReleaseSet.release, ReleaseSet.add, List.nil_append, ReleaseSet.takeAll,
    ReleaseSet.releaseEach, free, StateT.run_bind, StateT.run_modifyGet, StateT.run_lift,
    StateT.run_pure, pure_bind, bind_assoc]
  simp only [StateT.run, bind_assoc, pure_bind]
  refine bind_congr fun closing => ?_
  obtain ⟨verdict, session⟩ := closing
  cases verdict <;> rfl

variable {stream : RangeStream} {steps : List Step} {verdict : Except Error Unit} {opened : Opened}

/-- A release waits for nothing. -/
theorem release_of_open (hopen : stream.session.closed = false) :
    (release Program.backend ⟨stream, ReleaseSet.add {} .session⟩).Returns
      (Session.closing stream.session.shut.1)
      (stream.session.shut.1, ⟨{ stream with session := stream.session.shut.2 }, {}⟩) := by
  rw [release_eq, Program.returns_bind_iff]
  exact ⟨_, _, [], Session.close_of_open hopen, Program.returns_pure_iff.mpr ⟨rfl, rfl⟩,
    (List.append_nil _).symm⟩

/-- The verdict of a release is that of the session. -/
theorem release_returns (hopen : stream.session.closed = false)
    (h : (release Program.backend ⟨stream, ReleaseSet.add {} .session⟩).Returns steps
      (verdict, opened)) : verdict = stream.session.shut.1 := by
  rw [release_eq, Program.returns_bind_iff] at h
  obtain ⟨_, ⟨last, session⟩, _, hclose, hrest, -⟩ := h
  rw [Program.returns_pure_iff, Prod.mk.injEq] at hrest
  obtain ⟨-, rfl, -⟩ := hrest
  cases Session.close_returns hclose with
  | again hclosed => simp [hopen] at hclosed
  | first _ => rfl

end Opened

section

variable {plan : Plan} {link : Link} {range : ByteRange} {opened : Opened} {opening : List Step}
  {rounds : List Round} {stream : RangeStream}

/-- The verdict of a range's session compares what was delivered where that is a whole file to be
checked. -/
theorem Link.shut_cases (hlists : link.table.Lists plan) (hfits : plan.Fits)
    (hstream : link.openStream range = .ok opened.stream)
    (hreads : opened.stream.Reads rounds stream) :
    (∃ digest, link.Checks range digest ∧ (delivered rounds).size = link.size ∧
      stream.session.shut.1 = digest.compare (delivered rounds)) ∨
    ((∀ digest, link.Checks range digest → (delivered rounds).size ≠ link.size) ∧
      stream.session.shut.1 = .ok ()) := by
  obtain ⟨hwithin, htable, -, hstart, hoffset, -⟩ := Link.openStream_within hstream hlists hfits
  obtain ⟨-, hsame, -, hstarted, hmoved⟩ := hreads.within hwithin
  have htotal : stream.session.table.total = link.size := by rw [hsame, htable, Link.size]
  have hdelivered : stream.session.delivered = (delivered rounds).size := by
    rw [hoffset, RangeStream.offset] at hmoved
    omega
  have hverifier := hreads.verifier
  obtain ⟨_, -, hfirst, -⟩ := Link.of_openStream hstream
  rcases verifierFor_cases hfirst with
    ⟨digest, v, hchecks, hhex, hsome⟩ | ⟨hnone, hwithout⟩
  · -- the verifier has taken in what was delivered; it is asked only after the last byte
    rw [hsome, Option.map_some] at hverifier
    have hzero : stream.session.start = 0 := by
      rw [hstarted, hstart, hchecks.fromStart, UInt64.toNat_zero]
    by_cases hcomplete : (delivered rounds).size = link.size
    · have hshut := Session.shut_of_complete hverifier hzero (by
        rw [hdelivered, htotal, hcomplete])
      rw [Verifier.verify_update_ofHex hhex] at hshut
      exact Or.inl ⟨digest, hchecks, hcomplete, hshut⟩
    · refine Or.inr ⟨fun _ _ => hcomplete, ?_⟩
      rcases stream.session.shut_verdict with hok | ⟨_, -, -, hall, -⟩
      · exact hok
      · rw [hdelivered, htotal] at hall
        exact absurd hall hcomplete
  · rw [hwithout, Option.map_none] at hverifier
    refine Or.inr ⟨fun digest hchecks => absurd hchecks (hnone digest), ?_⟩
    rcases stream.session.shut_verdict with hok | ⟨_, hsome, -⟩
    · exact hok
    · cases hverifier.symm.trans hsome

/-- After any reads of an opened range its first release returns, and its verdict is that the digest
is wrong exactly where the range is the whole file, to be checked against a recorded digest, all of
it was delivered, and the digits of what was delivered are not the recorded ones. -/
theorem Plan.release_verdict (hlink : Link.ofPlan plan = .ok link) (policy : RetryPolicy)
    (verify : Bool) (range : ByteRange)
    (hopen : (Link.openRange Program.backend { link with policy, verify } range).Returns opening
      (.ok opened))
    (hreads : opened.stream.Reads rounds stream) :
    (∃ steps verdict released, (Opened.release Program.backend ⟨stream, opened.releases⟩).Returns
      steps (verdict, released)) ∧
    ∀ steps verdict released, (Opened.release Program.backend ⟨stream, opened.releases⟩).Returns
      steps (verdict, released) →
      (∀ expected actual, verdict = .error (.integrity expected actual) ↔
        ∃ digest, plan.digest = some digest ∧ verify = true ∧ range.start = 0 ∧
          (∀ length, range.length = some length → link.size ≤ length.toNat) ∧
          (delivered rounds).size = link.size ∧
          expected = Text.asciiLower (Text.trim digest.hex) ∧
          actual = digest.algorithm.digestHex (delivered rounds) ∧ actual ≠ expected) ∧
      (verdict = .ok () ∨ ∃ expected actual, verdict = .error (.integrity expected actual)) := by
  obtain ⟨hfits, hlinked, hdigest⟩ := Link.of_ofPlan hlink
  have hlists : ({ link with policy, verify } : Link).table.Lists plan := hlinked
  obtain ⟨hstream, -⟩ := Link.openRange_returns hopen
  obtain ⟨hwithin, -⟩ := hreads.within (Link.openStream_within hstream hlists hfits).1
  rw [Link.releases_of_openRange hopen]
  refine ⟨⟨_, _, _, Opened.release_of_open hwithin.isOpen⟩, ?_⟩
  intro steps verdict released hrelease
  rw [Opened.release_returns hwithin.isOpen hrelease]
  rcases Link.shut_cases hlists hfits hstream hreads with
    ⟨digest, hchecks, hcomplete, hshut⟩ | ⟨hnot, hshut⟩
  · have hrecorded : plan.digest = some digest := hdigest.symm.trans hchecks.recorded
    rw [hshut]
    refine ⟨fun expected actual => ?_, digest.compare_cases (delivered rounds)⟩
    rw [ExpectedDigest.compare_eq_error_iff]
    constructor
    · intro hdiffer
      exact ⟨digest, hrecorded, hchecks.verify, hchecks.fromStart, hchecks.toEnd, hcomplete,
        hdiffer⟩
    · rintro ⟨other, hother, -, -, -, -, hdiffer⟩
      cases hrecorded.symm.trans hother
      exact hdiffer
  · rw [hshut]
    refine ⟨fun expected actual => ?_, Or.inl rfl⟩
    simp only [reduceCtorEq, false_iff]
    rintro ⟨digest, hrecorded, hverify, hstart, htoEnd, hcomplete, -⟩
    exact hnot digest ⟨hverify, hdigest.trans hrecorded, hstart, htoEnd⟩ hcomplete

end

/-- A file of one byte with the recorded digest of no bytes, in capitals and behind a blank. -/
def misdigested : Plan :=
  { chunks := [⟨"a", 1⟩], digest := some ⟨.md5, " D41D8CD98F00B204E9800998ECF8427E"⟩ }

def misdigestedLink : Link :=
  { table := oneByte.table, policy := .direct, proxied := false, digest := misdigested.digest }

def misdigestedVerifier : Verifier := ⟨.md5, "d41d8cd98f00b204e9800998ecf8427e", .start _⟩

/-- The whole file, opened. -/
def misdigestedWhole : Opened :=
  ⟨⟨{ table := misdigestedLink.table, verifier := some misdigestedVerifier }, none⟩,
    ReleaseSet.add {} .session⟩

/-- The whole file after its byte was delivered. -/
def misdigestedEnd : RangeStream :=
  ⟨{ table := misdigestedLink.table, verifier := some (misdigestedVerifier.update ⟨#[97]⟩),
     cursor := 1, delivered := 1, window := ⟨⟨#[97]⟩, 1, by decide⟩ }, none⟩

/-- A read that is refused for its payload, and then one that brings the byte. -/
def misdigestedRounds : List Round :=
  [⟨5, [.now 0, .fetch ⟨"a", false⟩ (.ok ⟨#[97, 98]⟩), .now 0, .record (.chunkFetched 2 0)],
      .error (.sizeMismatch 0 1 2), misdigestedWhole.stream⟩,
    ⟨5, [.now 0, .fetch ⟨"a", false⟩ (.ok ⟨#[97]⟩), .now 0, .record (.chunkFetched 1 0),
        .record (.bytesDelivered 1)], .ok ⟨#[97]⟩, misdigestedEnd⟩]

/-- The whole file can be opened. -/
theorem misdigested_openRange : (Link.openRange Program.backend misdigestedLink .full).Returns
    [.record .sessionOpened] (.ok misdigestedWhole) := by
  apply Program.returns_of_follow
  with_unfolding_all rfl

theorem misdigested_reads : misdigestedWhole.stream.Reads misdigestedRounds misdigestedEnd := by
  have hrefused : (misdigestedWhole.stream.read Program.backend 5).Returns
      [.now 0, .fetch ⟨"a", false⟩ (.ok ⟨#[97, 98]⟩), .now 0, .record (.chunkFetched 2 0)]
      (.error (.sizeMismatch 0 1 2), misdigestedWhole.stream) := by
    apply Program.returns_of_follow
    with_unfolding_all rfl
  have harrived : (misdigestedWhole.stream.read Program.backend 5).Returns
      [.now 0, .fetch ⟨"a", false⟩ (.ok ⟨#[97]⟩), .now 0, .record (.chunkFetched 1 0),
        .record (.bytesDelivered 1)] (.ok ⟨#[97]⟩, misdigestedEnd) := by
    apply Program.returns_of_follow
    with_unfolding_all rfl
  exact .snoc (.snoc .nil hrefused) harrived

/-- The release tells the recorded digits, in lower case, and those of the byte. -/
theorem release_verdict_misdigested :
    Link.ofPlan misdigested = .ok misdigestedLink ∧
      (Link.openRange Program.backend misdigestedLink .full).Returns [.record .sessionOpened]
        (.ok misdigestedWhole) ∧
      misdigestedWhole.stream.Reads misdigestedRounds misdigestedEnd ∧
      ∃ steps released,
        (Opened.release Program.backend ⟨misdigestedEnd, misdigestedWhole.releases⟩).Returns steps
          (.error (.integrity "d41d8cd98f00b204e9800998ecf8427e"
            "0cc175b9c0f1b6a831c399e269772661"), released) := by
  have hlink : Link.ofPlan misdigested = .ok misdigestedLink := rfl
  obtain ⟨⟨steps, verdict, released, hrun⟩, hverdict⟩ :=
    Plan.release_verdict hlink .direct true .full misdigested_openRange misdigested_reads
  have hdelivered : delivered misdigestedRounds = ⟨#[97]⟩ := rfl
  have hexpected : "d41d8cd98f00b204e9800998ecf8427e" =
      Text.asciiLower (Text.trim " D41D8CD98F00B204E9800998ECF8427E") := by decide +kernel
  have hactual : "0cc175b9c0f1b6a831c399e269772661" = Algorithm.md5.digestHex ⟨#[97]⟩ := by
    decide +kernel
  have htoEnd : ∀ length, ByteRange.full.length = some length →
      misdigestedLink.size ≤ length.toNat := by
    intro length hlength
    cases hlength
  have herror := ((hverdict _ _ _ hrun).1 _ _).mpr ⟨_, rfl, rfl, rfl, htoEnd, by
    rw [hdelivered]; rfl, hexpected, hdelivered ▸ hactual, by decide⟩
  rw [herror] at hrun
  exact ⟨hlink, misdigested_openRange, misdigested_reads, steps, released, hrun⟩

end ChunkedFile
