import ChunkedFile.Proofs.Range.Header
import ChunkedFile.Proofs.Stream.Admission
import ChunkedFile.Proofs.Stream.Draining

/-!
# Inclusive ranges, served

A header gives the first and the last position of a range in decimal digits. Over a store that
answers every call with the right payload no read fails, so the range comes out as the bytes at
these positions, as far as the file has them. Lengths and ends are held at the greatest size on the
way; nothing of the file lies beyond that, so no byte is lost to it.
-/

namespace ChunkedFile

/-- The store's answer is the right payload. -/
def Step.Right (payload : String → ByteArray) : Step → Prop
  | .fetch call answer => answer = .ok (payload call.address)
  | _ => True

/-- Every call to the store ends, whatever else it does, in the right payload. -/
def Backend.Brings {m : Type → Type} [Monad m] (store : Backend m) (payload : String → ByteArray) :
    Prop :=
  ∀ call, ∃ run : m Unit, store.fetch call = (fun _ => .ok (payload call.address)) <$> run

/-- What all runs with right answers return is what comes of a program over a store that is always
right. -/
theorem Program.exists_run_of_brings {α : Type} {m : Type → Type} [Monad m] [LawfulMonad m]
    {store : Backend m} {payload : String → ByteArray} {p : Program α} {P : α → Prop}
    (hstore : store.Brings payload)
    (h : ∀ steps value, (∀ step ∈ steps, step.Right payload) → p.Returns steps value → P value) :
    ∃ run : m {value // P value}, p.answeredBy store = Subtype.val <$> run := by
  induction p with
  | done value =>
    exact ⟨pure ⟨value, h [] value (by simp) (.refl _)⟩, by simp [answeredBy]⟩
  | fetch call next ih =>
    obtain ⟨ask, hask⟩ := hstore call
    obtain ⟨run, hrun⟩ := ih (.ok (payload call.address)) fun steps value hright hreturns =>
      h (.fetch call (.ok (payload call.address)) :: steps) value
        (List.forall_mem_cons.mpr ⟨rfl, hright⟩) (.cons (.fetch call next _) hreturns)
    exact ⟨ask >>= fun _ => run, by simp [answeredBy, hask, hrun]⟩
  | pause ms next ih =>
    choose run hrun using fun elapsed => ih elapsed fun steps value hright hreturns =>
      h (.pause ms elapsed :: steps) value (List.forall_mem_cons.mpr ⟨trivial, hright⟩)
        (.cons (.pause ms next elapsed) hreturns)
    exact ⟨store.pause ms >>= run, by simp [answeredBy, hrun]⟩
  | now next ih =>
    choose run hrun using fun time => ih time fun steps value hright hreturns =>
      h (.now time :: steps) value (List.forall_mem_cons.mpr ⟨trivial, hright⟩)
        (.cons (.now next time) hreturns)
    exact ⟨store.now >>= run, by simp [answeredBy, hrun]⟩
  | record event next ih =>
    obtain ⟨run, hrun⟩ := ih fun steps value hright hreturns =>
      h (.record event :: steps) value (List.forall_mem_cons.mpr ⟨trivial, hright⟩)
        (.cons (.record event next) hreturns)
    exact ⟨store.record event >>= fun _ => run, by simp [answeredBy, hrun]⟩

section Right

variable {payload : String → ByteArray} {steps : List Step} {file : ByteArray} {n stop : Nat}

/-- An answer that is right is honest. -/
theorem Step.Right.honest {step : Step} (h : step.Right payload) : step.Honest payload := by
  cases step with
  | fetch call answer =>
    obtain rfl := h
    exact Or.inl rfl
  | pause | now | record => exact trivial

/-- A fetch that is answered right at once brings the right payload. -/
theorem Backend.fetchRetrying_of_right {policy : RetryPolicy} {call : Call}
    {answer : Except Error ByteArray} (hright : ∀ step ∈ steps, step.Right payload)
    (h : (Program.backend.fetchRetrying policy call).Returns steps answer) :
    answer = .ok (payload call.address) := by
  obtain ⟨started, rest, rfl, hattempts⟩ := fetchRetrying_returns h
  have hfirst (reply : Except Error ByteArray) (hmem : Step.fetch call reply ∈ rest) :
      reply = .ok (payload call.address) := hright _ (List.mem_cons_of_mem _ hmem)
  cases hattempts with
  | arrived => exact hfirst _ List.mem_cons_self
  | cancelled | gaveUp | interrupted | retried => cases hfirst _ List.mem_cons_self

/-- No read of an open session fails. -/
theorem Session.ReadRun.ok_of_right {s t : Session} {result : Except Error ByteArray}
    (h : ReadRun s n steps result t) (hstands : s.Stands) (hopen : s.closed = false)
    (hholds : s.table.Holds payload file) (hright : ∀ step ∈ steps, step.Right payload) :
    ∃ bytes, result = .ok bytes := by
  cases h with
  | closed hclosed => simp [hopen] at hclosed
  | nothing | ended | buffered | fetched => exact ⟨_, rfl⟩
  | overrun _ _ hneed => exact absurd hneed hstands.need_ne_overrun
  | failed _ _ i size address fetching e hneed hfetch =>
    cases Backend.fetchRetrying_of_right hright hfetch
  | refused _ _ i size address fetching bytes e hneed hfetch haccept =>
    obtain ⟨-, -, hsize, haddress, hlt, -⟩ := hstands.of_need_chunk hneed
    obtain ⟨hstored, -⟩ := hholds i address haddress (by omega)
    obtain rfl := Except.ok.inj (Backend.fetchRetrying_of_right hright hfetch)
    simp [accept, hsize, hstored] at haccept

namespace RangeStream

variable {stream next first after : RangeStream} {result : Except Error ByteArray}

/-- No read of an open stream fails. -/
theorem ok_of_right (hread : (stream.read Program.backend n).Returns steps (result, next))
    (hstands : stream.session.Stands) (hopen : stream.session.closed = false)
    (hholds : stream.session.table.Holds payload file)
    (hright : ∀ step ∈ steps, step.Right payload) : ∃ bytes, result = .ok bytes := by
  rcases read_returns hread with ⟨-, -, rfl, -⟩ | ⟨-, session, hrun, -⟩
  · exact ⟨_, rfl⟩
  · exact hrun.ok_of_right hstands hopen hholds hright

/-- No error ends the blocks. -/
theorem BlockRun.ok_of_right {size : Nat} {blocks : List ByteArray} {e : Option Error}
    (h : BlockRun size stream steps blocks e after) (hlive : stream.session.Live)
    (hholds : stream.session.table.Holds payload file)
    (hright : ∀ step ∈ steps, step.Right payload) : e = none := by
  induction h with
  | ended => rfl
  | failed hread =>
    obtain ⟨bytes, hbytes⟩ :=
      RangeStream.ok_of_right hread hlive.stands hlive.isOpen hholds hright
    cases hbytes
  | block hread hsome others ih =>
    obtain ⟨htable, -⟩ := next_of_read hread
    exact ih (live_of_read hlive hread) (by rw [htable]; exact hholds) fun step hstep =>
      hright step (List.mem_append_right _ hstep)

/-- Reading a stream to its end takes it in blocks. -/
theorem readToEnd_returns {outcome : Except Error ByteArray × RangeStream}
    (hlive : stream.session.Live) (h : (stream.readToEnd Program.backend).Returns steps outcome) :
    ∃ blocks e after, BlockRun drainSize stream steps blocks e after ∧
      outcome = gathered (blocks, e, after) := by
  rw [readToEnd, Program.returns_bind_iff] at h
  obtain ⟨first, ⟨blocks, e, after⟩, second, hblocks, hrest, rfl⟩ := h
  have hrun := blocksFrom_returns hlive (lt_offset_add_enough hlive.stands) hblocks
  cases e <;>
  · rw [Program.returns_pure_iff] at hrest
    obtain ⟨rfl, rfl⟩ := hrest
    rw [List.append_nil]
    exact ⟨_, _, _, hrun, rfl⟩

/-- Read to its end, a stream brings the file from where it stood up to its end. -/
theorem readToEnd_of_right {outcome : Except Error ByteArray × RangeStream}
    (hlive : stream.session.Live) (hholds : stream.session.table.Holds payload file)
    (hshows : stream.session.Shows file) (hright : ∀ step ∈ steps, step.Right payload)
    (h : (stream.readToEnd Program.backend).Returns steps outcome) :
    outcome.1 = .ok (file.extract stream.offset stream.stop) := by
  obtain ⟨blocks, e, after, hrun, rfl⟩ := readToEnd_returns hlive h
  obtain rfl := hrun.ok_of_right hlive hholds hright
  have hjoined := hrun.shows hlive hholds hshows fun step hstep => (hright step hstep).honest
  rw [(hrun.offset_add_le hlive (by decide)).2.mp rfl] at hjoined
  exact congrArg Except.ok hjoined

/-- No read of a history fails, and each for some bytes brings some, up to the end. -/
theorem Reads.of_right {rounds : List Round} (hreads : first.Reads rounds stream)
    (hwithin : first.Within stop) (hholds : first.session.table.Holds payload file)
    (hright : ∀ round ∈ rounds, ∀ step ∈ round.steps, step.Right payload) :
    (∀ round ∈ rounds, ∃ bytes, round.result = .ok bytes) ∧
      (stream.offset = stop ∨ rounds.countP (·.asked ≠ 0) ≤ (delivered rounds).size) := by
  induction hreads with
  | nil => simp
  | @snoc rounds stream n steps result next before read ih =>
    obtain ⟨hresults, hprogress⟩ := ih fun round hround =>
      hright round (List.mem_append_left _ hround)
    obtain ⟨hthere, htable, -⟩ := before.within hwithin
    have hround : ∀ step ∈ steps, step.Right payload :=
      hright _ (List.mem_append_right _ (List.mem_singleton_self _))
    obtain ⟨bytes, rfl⟩ := ok_of_right read hthere.placed.stands hthere.isOpen
      (by rw [htable]; exact hholds) hround
    obtain ⟨-, hoffset, -⟩ := next_of_read read
    have hend := (hthere.read read).1.offset_le
    refine ⟨?_, ?_⟩
    · intro round hmem
      rcases List.mem_append.mp hmem with hmem | hmem
      · exact hresults round hmem
      · rw [List.mem_singleton.mp hmem]
        exact ⟨bytes, rfl⟩
    · have hbrings : n ≠ 0 → stream.offset ≠ stop → bytes.size ≠ 0 := by
        intro hn hbefore hsize
        exact hbefore ((hthere.eq_ok_empty_iff hn read).mp (by
          rw [ByteArray.size_eq_zero_iff.mp hsize]))
      have hone : [(⟨n, steps, .ok bytes, next⟩ : Round)].countP (·.asked ≠ 0) ≤ 1 ∧
          (n = 0 → [(⟨n, steps, .ok bytes, next⟩ : Round)].countP (·.asked ≠ 0) = 0) :=
        ⟨List.countP_le_length, fun hn => by simp [hn]⟩
      rw [delivered_append_singleton, ByteArray.size_append, List.countP_append]
      simp only [bytesOf] at hoffset ⊢
      omega

/-- The reads of a stream bring its part of the file, and one for some bytes brings none exactly
where all of that has been brought. -/
theorem Reads.served {rounds : List Round} {part : ByteArray} (hreads : first.Reads rounds stream)
    (hwithin : first.Within stop) (hstop : stop ≤ file.size)
    (hholds : first.session.table.Holds payload file) (hshows : first.session.Shows file)
    (hright : ∀ round ∈ rounds, ∀ step ∈ round.steps, step.Right payload)
    (hpart : part = file.extract first.offset stop) :
    (∀ round ∈ rounds, ∃ bytes, round.result = .ok bytes) ∧
      (∃ rest, delivered rounds ++ rest = part) ∧
      (part.size ≤ rounds.countP (·.asked ≠ 0) → delivered rounds = part) ∧
      ∀ n steps result next, n ≠ 0 →
        (stream.read Program.backend n).Returns steps (result, next) →
        (result = .ok ByteArray.empty ↔ delivered rounds = part) := by
  obtain ⟨hresults, hprogress⟩ := hreads.of_right hwithin hholds hright
  obtain ⟨-, hdelivered⟩ := hreads.shows hwithin hholds hshows fun round hround step hstep =>
    (hright round hround step hstep).honest
  obtain ⟨hthere, -, -, -, hoffset⟩ := hreads.within hwithin
  have hle := hthere.offset_le
  rw [← hoffset] at hdelivered
  have hsplit : delivered rounds ++ file.extract stream.offset stop = part := by
    rw [hdelivered, hpart]
    exact (ByteArray.extract_eq_extract_append_extract stream.offset (by omega) hle).symm
  have hend : stream.offset = stop ↔ delivered rounds = part := by
    have hsizes := congrArg ByteArray.size hsplit
    rw [ByteArray.size_append, ByteArray.size_extract] at hsizes
    constructor
    · intro hat
      rw [← hsplit, hat, ByteArray.extract_same, ByteArray.append_empty]
    · intro hall
      rw [hall] at hsizes
      omega
  refine ⟨hresults, ⟨_, hsplit⟩, ?_, ?_⟩
  · intro henough
    have hsize := congrArg ByteArray.size hpart
    rw [ByteArray.size_extract] at hsize
    exact hend.mp (by omega)
  · intro n steps result next hn hread
    rw [hthere.eq_ok_empty_iff hn hread, hend]

/-- Over a store that is always right, reading a stream to its end brings the file up to there. -/
theorem readToEnd_of_brings {m : Type → Type} [Monad m] [LawfulMonad m] {store : Backend m}
    (hlive : stream.session.Live) (hholds : stream.session.table.Holds payload file)
    (hshows : stream.session.Shows file) (hstore : store.Brings payload) :
    ∃ run : m RangeStream, stream.readToEnd store =
      (fun after => (.ok (file.extract stream.offset stream.stop), after)) <$> run := by
  have hread (steps : List Step) (outcome : Except Error ByteArray × RangeStream)
      (hright : ∀ step ∈ steps, step.Right payload)
      (h : (stream.readToEnd Program.backend).Returns steps outcome) :
      outcome.1 = .ok (file.extract stream.offset stream.stop) :=
    readToEnd_of_right hlive hholds hshows hright h
  obtain ⟨run, hrun⟩ := Program.exists_run_of_brings hstore hread
  rw [readToEnd_answeredBy] at hrun
  refine ⟨(fun outcome => outcome.val.2) <$> run, ?_⟩
  rw [hrun, Functor.map_map]
  congr 1
  funext outcome
  obtain ⟨⟨result, after⟩, hresult⟩ := outcome
  exact Prod.ext hresult rfl

end RangeStream

end Right

section

variable {first last : UInt64} {range : ByteRange} {file : ByteArray} {plan : Plan}
  {payload : String → ByteArray}

/-- No bytes are found behind the last. -/
theorem extract_min_size (bytes : ByteArray) (start stop : Nat) :
    bytes.extract start (min stop bytes.size) = bytes.extract start stop := by
  have hinside : (bytes.extract 0 bytes.size).extract start stop =
      bytes.extract start (min stop bytes.size) := by
    rw [ByteArray.extract_extract, Nat.zero_add, Nat.zero_add]
  rw [← hinside, ByteArray.extract_zero_size]

/-- The part of a file that lies in the range from one position to another are the bytes at these
positions, and the effective length is their number. -/
theorem ByteRange.part_of_inclusive (h : ByteRange.inclusive first last = .ok range)
    (hfile : file.size ≤ Size.limit) :
    range.part file = file.extract first.toNat (last.toNat + 1) ∧
      (range.part file).size = range.effectiveLength file.size := by
  obtain ⟨hle, rfl⟩ := ByteRange.inclusive_eq_ok_iff.mp h
  rw [UInt64.le_iff_toNat_le] at hle
  rw [Size.limit] at hfile
  have hlength : (UInt64.ofNat (min (last.toNat - first.toNat + 1) Size.limit)).toNat =
      min (last.toNat - first.toNat + 1) Size.limit :=
    UInt64.toNat_ofNat_of_lt' (by rw [Size.limit]; exact Nat.lt_succ_of_le (Nat.min_le_right _ _))
  have heffective : ByteRange.effectiveLength
      ⟨first, some (UInt64.ofNat (min (last.toNat - first.toNat + 1) Size.limit))⟩ file.size =
        min (last.toNat - first.toNat + 1) (file.size - first.toNat) := by
    simp only [ByteRange.effectiveLength, hlength]
    rw [Size.limit]
    omega
  rw [ByteRange.part, heffective]
  dsimp only
  constructor
  · rw [← extract_min_size, ← extract_min_size file first.toNat (last.toNat + 1)]
    congr 1
    omega
  · rw [ByteArray.size_extract]
    omega

/-- An inclusive range in decimal digits is refused exactly where it begins behind the end of the
file, unless it begins with the first byte. Otherwise it is opened, and over a store that answers
every call with the right payload it brings the bytes from the first position to the last, as far as
the file has them: read to its end at once, over whatever backend, and by any reads, of which none
fails and each for some bytes brings some up to the end. -/
theorem Plan.inclusive_served (hfits : plan.Fits)
    (hdigest : ∀ digest, plan.digest = some digest → digest.WellFormed)
    (hstored : plan.StoredIn payload) (hle : first ≤ last) :
    ∃ link range file part, Link.ofPlan plan = .ok link ∧
      ByteRange.ofHeader s!"bytes={first}-{last}" = .ok range ∧
      file = plan.content payload ∧ link.size = file.size ∧
      part = file.extract first.toNat (last.toNat + 1) ∧
      part.size = range.effectiveLength file.size ∧
      ∀ policy verify,
        (0 < first.toNat ∧ file.size ≤ first.toNat → ∃ fault,
          ∀ (m : Type → Type) [Monad m] (backend : Backend m),
            Link.openRange backend { link with policy, verify } range =
              pure (.error (.range fault))) ∧
        (¬ (0 < first.toNat ∧ file.size ≤ first.toNat) → ∃ opened : Opened,
          (∀ (m : Type → Type) [Monad m] (backend : Backend m),
            Link.openRange backend { link with policy, verify } range = do
              backend.record .sessionOpened
              return .ok opened) ∧
          (∀ (m : Type → Type) [Monad m] [LawfulMonad m] (store : Backend m), store.Brings payload →
            ∃ run : m RangeStream,
              opened.stream.readToEnd store = (fun after => (.ok part, after)) <$> run) ∧
          ∀ rounds stream, opened.stream.Reads rounds stream →
            (∀ round ∈ rounds, ∀ step ∈ round.steps, step.Right payload) →
            (∀ round ∈ rounds, ∃ bytes, round.result = .ok bytes) ∧
            (∃ rest, delivered rounds ++ rest = part) ∧
            (part.size ≤ rounds.countP (·.asked ≠ 0) → delivered rounds = part) ∧
            ∀ n steps result next, n ≠ 0 →
              (stream.read Program.backend n).Returns steps (result, next) →
              (result = .ok ByteArray.empty ↔ delivered rounds = part)) := by
  obtain ⟨link, hlink, hlists, -⟩ := Link.exists_ofPlan hfits
  obtain ⟨-, -, hplan⟩ := Link.of_ofPlan hlink
  have hsize := Link.size_eq_size_content hlists hfits hstored
  have hfile : (plan.content payload).size ≤ Size.limit := by
    rw [hstored.size_content]
    exact hfits
  obtain ⟨range, hrange⟩ : ∃ range, ByteRange.inclusive first last = .ok range :=
    ⟨_, ByteRange.inclusive_eq_ok_iff.mpr ⟨hle, rfl⟩⟩
  obtain ⟨hpart, hlength⟩ := ByteRange.part_of_inclusive hrange hfile
  have hstart : range.start = first := by
    rw [(ByteRange.inclusive_eq_ok_iff.mp hrange).2]
  refine ⟨link, range, _, range.part (plan.content payload), hlink,
    (ByteRange.asks_decimal first last).ofHeader_eq.trans hrange, rfl, hsize, hpart, hlength, ?_⟩
  intro policy verify
  -- the link opens its range just where the one asked for does not begin behind the end
  have hbegins : ¬ (0 < first.toNat ∧ (plan.content payload).size ≤ first.toNat) ↔
      range.start = 0 ∨ range.start.toNat < link.size := by
    rw [hstart, hsize, ← UInt64.toNat_inj, UInt64.toNat_zero]
    omega
  constructor
  · intro hbehind
    have hrefused : Link.openStream { link with policy, verify } range =
        .error (.range (.beyondEnd range.start.toNat link.size)) :=
      Link.openStream_of_not fun hstarts => hbegins.mpr hstarts hbehind
    exact ⟨_, fun m _ backend => Link.openRange_of_error backend hrefused⟩
  · intro hinside
    obtain ⟨stream, hstream⟩ : ∃ stream, Link.openStream { link with policy, verify } range =
        .ok stream :=
      Link.exists_openStream (fun digest hrecorded => hdigest digest (hplan.symm.trans hrecorded))
        (hbegins.mp hinside)
    have hlive := (Link.openStream_built hstream hlists).live
    obtain ⟨hwithin, htable, -, -, hoffset, hwindow⟩ := Link.openStream_within hstream hlists hfits
    have hholds : stream.session.table.Holds payload (plan.content payload) := by
      rw [htable]
      exact hlists.holds hstored
    have hshows : stream.session.Shows (plan.content payload) := by
      rw [Session.Shows, hwindow, Window.size_empty, Nat.add_zero, ByteArray.extract_same]
      rfl
    have hfileEnd : range.start.toNat + range.effectiveLength link.size ≤
        (plan.content payload).size := Nat.le_trans hwithin.stop_le hholds.sum_le_size
    have hread : range.part (plan.content payload) =
        (plan.content payload).extract stream.offset stream.stop := by
      rw [hwithin.stop_eq, hoffset, ByteRange.part, ← hsize]
      rfl
    refine ⟨⟨stream, ReleaseSet.add {} .session⟩,
      fun m _ backend => Link.openRange_of_ok backend hstream, ?_, ?_⟩
    · intro m _ _ store hstore
      rw [hread]
      exact RangeStream.readToEnd_of_brings hlive hholds hshows hstore
    · intro rounds next hreads hright
      rw [hwithin.stop_eq] at hread
      exact hreads.served hwithin hfileEnd hholds hshows hright hread

end

/-- A store that answers at once with what is stored for the three bytes. -/
def threeBytesStore : Backend Id where
  fetch call := .ok (threeBytesStored call.address)
  pause _ := true
  now := 0
  record _ := ()

/-- The positions of all bytes that a file can have are one more than a length can say; the three
bytes come all the same. -/
theorem inclusive_served_threeBytes :
    threeBytes.Fits ∧ threeBytes.StoredIn threeBytesStored ∧
      threeBytesStore.Brings threeBytesStored ∧
      ∃ link range opened, Link.ofPlan threeBytes = .ok link ∧
        ByteRange.ofHeader "bytes=0-18446744073709551615" = .ok range ∧
        range.effectiveLength 3 = 3 ∧
        link.openRange threeBytesStore range = .ok opened ∧
        ∃ after, opened.stream.readToEnd threeBytesStore = (.ok ⟨#[7, 8, 9]⟩, after) := by
  have hfits : threeBytes.Fits := by decide
  have hdigest : ∀ digest, threeBytes.digest = some digest → digest.WellFormed := by
    rintro digest ⟨⟩
  have hstored : threeBytes.StoredIn threeBytesStored := by decide
  have hbrings : threeBytesStore.Brings threeBytesStored := fun call => ⟨(), rfl⟩
  have hheader : s!"bytes={(0 : UInt64)}-{(18446744073709551615 : UInt64)}" =
      "bytes=0-18446744073709551615" := by decide +kernel
  have hcontent : threeBytes.content threeBytesStored = ⟨#[7, 8, 9]⟩ := rfl
  obtain ⟨link, range, file, part, hlink, hrange, hfile, -, hpart, hlength, hserved⟩ :=
    Plan.inclusive_served hfits hdigest hstored
      (show (0 : UInt64) ≤ 18446744073709551615 by decide)
  rw [hheader] at hrange
  obtain ⟨opened, hopen, hread, -⟩ := (hserved link.policy link.verify).2 (by simp)
  obtain ⟨after, hafter⟩ := hread Id threeBytesStore hbrings
  have hthree : part = ⟨#[7, 8, 9]⟩ := by
    rw [hpart, hfile, hcontent, ← extract_min_size]
    rfl
  rw [hfile, hcontent, hthree] at hlength
  rw [hthree] at hafter
  exact ⟨hfits, hstored, hbrings, link, range, opened, hlink, hrange, hlength.symm,
    hopen Id threeBytesStore, after, hafter⟩

end ChunkedFile
