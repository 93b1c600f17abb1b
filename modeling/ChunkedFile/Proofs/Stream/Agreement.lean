import ChunkedFile.Proofs.Stream.Admission
import ChunkedFile.Proofs.Stream.Calls

/-!
# Two ways to a session

A session can be built from a plan and placed at an offset, or it comes with a range that a link has
opened. The first always has the verifier of the plan's digest, the second only where the range is
the whole file. `Session.Agrees` says that this is all the difference and that the verifier is not
asked where it is one; every call keeps it, so no calls tell the two sessions apart.
-/

namespace ChunkedFile

namespace Session

variable {s t : Session} {n : Nat}

/-- Sessions that differ in their verifiers at most, and there only if they do not begin at the
first byte. -/
structure Agrees (s t : Session) : Prop where
  same : t = { s with verifier := t.verifier }
  verifier : s.start = 0 → t.verifier = s.verifier

namespace Agrees

theorem table (h : s.Agrees t) : t.table = s.table := by rw [h.same]

theorem policy (h : s.Agrees t) : t.policy = s.policy := by rw [h.same]

theorem proxied (h : s.Agrees t) : t.proxied = s.proxied := by rw [h.same]

theorem start (h : s.Agrees t) : t.start = s.start := by rw [h.same]

theorem closed (h : s.Agrees t) : t.closed = s.closed := by rw [h.same]

theorem skip (h : s.Agrees t) : t.skip = s.skip := by rw [h.same]

theorem need (h : s.Agrees t) : t.need = s.need := by rw [h.same]; rfl

/-- Settling does not look at the verifier. -/
theorem settle (h : s.Agrees t) : s.settle.Agrees t.settle := by
  refine ⟨?_, fun hstart => ?_⟩
  · rw [settle_verifier, h.same]
    simp only [Session.settle]
    split <;> rfl
  · rw [settle_start] at hstart
    rw [settle_verifier, settle_verifier, h.verifier hstart]

/-- Chunks are taken in by both or by neither. -/
theorem accept (h : s.Agrees t) (i size : Nat) (bytes : ByteArray) :
    (∃ e, s.accept i size bytes = .error e ∧ t.accept i size bytes = .error e) ∨
      ∃ u v, s.accept i size bytes = .ok u ∧ t.accept i size bytes = .ok v ∧ u.Agrees v ∧
        u.closed = s.closed := by
  by_cases hsize : bytes.size = size
  · refine Or.inr ⟨_, _, accept_eq_ok_iff.mpr ⟨hsize, rfl⟩, accept_eq_ok_iff.mpr ⟨hsize, rfl⟩,
      ⟨?_, h.verifier⟩, rfl⟩
    rw [h.same]
  · exact Or.inl ⟨.sizeMismatch i size bytes.size, by simp [Session.accept, hsize],
      by simp [Session.accept, hsize]⟩

/-- Both hand out the same bytes. -/
theorem deliver (h : s.Agrees t) (n : Nat) :
    (t.deliver n).1 = (s.deliver n).1 ∧ (s.deliver n).2.Agrees (t.deliver n).2 := by
  have hpiece : (t.deliver n).1 = (s.deliver n).1 := by
    rw [h.same]
    rfl
  refine ⟨hpiece, ?_, fun hstart => ?_⟩
  · rw [h.same]
    rfl
  · have hsame : t.verifier = s.verifier := h.verifier hstart
    have hwindow : t.window = s.window := by rw [h.same]
    simp only [Session.deliver, hsame, hwindow]

/-- Both are shut with the same verdict: one that did not begin at the first byte is not checked. -/
theorem shut (h : s.Agrees t) : t.shut = s.shut := by
  by_cases hstart : s.start = 0
  · have hsame : t = s := by rw [h.same, h.verifier hstart]
    rw [hsame]
  · have hverdict (u : Session) (hu : u.start ≠ 0) : u.shut.1 = .ok () := by
      rcases u.shut_verdict with hok | ⟨-, -, hzero, -⟩
      · exact hok
      · exact absurd hzero hu
    have hrest : t.shut.2 = s.shut.2 := by
      rw [h.same]
      rfl
    exact Prod.ext ((hverdict t (h.start ▸ hstart)).trans (hverdict s hstart).symm) hrest

section Bind

variable {m : Type → Type} [Monad m] [LawfulMonad m] {β : Type} (backend : Backend m)

/-- Handing out bytes goes the same way. -/
private theorem bind_deliverCounted (h : s.Agrees t)
    {f g : Except Error ByteArray × Session → m β}
    (hfg : ∀ result u v, u.Agrees v → u.closed = s.closed → f (result, u) = g (result, v)) :
    s.deliverCounted backend n >>= f = t.deliverCounted backend n >>= g := by
  obtain ⟨hpiece, hagrees⟩ := h.deliver n
  simp only [deliverCounted, bind_assoc, pure_bind, hpiece]
  exact bind_congr fun _ => hfg _ _ _ hagrees rfl

/-- A read goes the same way: what comes after it is the same computation if it treats agreeing
sessions the same. -/
theorem bind_read (h : s.Agrees t) {f g : Except Error ByteArray × Session → m β}
    (hfg : ∀ result u v, u.Agrees v → u.closed = s.closed → f (result, u) = g (result, v)) :
    s.read backend n >>= f = t.read backend n >>= g := by
  rw [Session.read, Session.read, h.closed]
  by_cases hclosed : s.closed = true
  · rw [if_pos hclosed, if_pos hclosed, pure_bind, pure_bind]
    exact hfg _ _ _ h rfl
  rw [if_neg hclosed, if_neg hclosed]
  by_cases hn : n = 0
  · rw [if_pos hn, if_pos hn, pure_bind, pure_bind]
    exact hfg _ _ _ h rfl
  rw [if_neg hn, if_neg hn]
  have hsettle := h.settle
  have hsettled (result : Except Error ByteArray) (u v : Session) (huv : u.Agrees v)
      (hu : u.closed = s.settle.closed) : f (result, u) = g (result, v) :=
    hfg result u v huv (hu.trans settle_closed)
  simp only [hsettle.need]
  cases hneed : s.settle.need with
  | overrun =>
    simp only [pure_bind, hsettle.skip, hsettle.table]
    exact hsettled _ _ _ hsettle rfl
  | ended =>
    simp only [pure_bind]
    exact hsettled _ _ _ hsettle rfl
  | buffered => exact hsettle.bind_deliverCounted backend hsettled
  | chunk i size address =>
    simp only [bind_assoc, hsettle.policy, hsettle.proxied]
    refine bind_congr fun answer => ?_
    cases answer with
    | error e =>
      simp only [pure_bind]
      exact hsettled _ _ _ hsettle rfl
    | ok bytes =>
      rcases hsettle.accept i size bytes with ⟨e, hs, ht⟩ | ⟨u, v, hs, ht, huv, hu⟩
      · simp only [hs, ht, pure_bind]
        exact hsettled _ _ _ hsettle rfl
      · simp only [hs, ht]
        exact huv.bind_deliverCounted backend fun result u' v' huv' hu' =>
          hsettled result u' v' huv' (hu'.trans hu)

/-- A close goes the same way. -/
theorem bind_close (h : s.Agrees t) {f g : Except Error Unit × Session → m β}
    (hfg : ∀ verdict u v, u.Agrees v → u.closed = true → f (verdict, u) = g (verdict, v)) :
    s.close backend >>= f = t.close backend >>= g := by
  rw [Session.close, Session.close, h.closed, h.shut]
  by_cases hclosed : s.closed = true
  · rw [if_pos hclosed, if_pos hclosed, pure_bind, pure_bind]
    exact hfg _ _ _ h hclosed
  · rw [if_neg hclosed, if_neg hclosed]
    simp only [bind_assoc]
    have hshut : s.shut.2.Agrees s.shut.2 := ⟨rfl, fun _ => rfl⟩
    refine bind_congr fun _ => ?_
    split <;> simp [hfg _ _ _ hshut rfl]

end Bind

end Agrees

/-- Placing a session does not look at its verifier. -/
theorem skipTo_withVerifier (s : Session) (verifier : Option Verifier) (start : Nat) :
    ({ s with verifier } : Session).skipTo start =
      (s.skipTo start).map fun t => { t with verifier } := by
  rw [skipTo, skipTo]
  by_cases hend : 0 < start ∧ s.table.total ≤ start
  · rw [if_pos hend, if_pos hend]
    rfl
  · rw [if_neg hend, if_neg hend]
    rfl

end Session

/-- An opened range without a bound, whose session agrees with a given one. -/
structure Opened.Mirrors (opened : Opened) (s : Session) : Prop where
  agrees : s.Agrees opened.stream.session
  unbounded : opened.stream.remaining = none
  holds : opened.Holds

namespace Opened.Mirrors

variable {m : Type → Type} [Monad m] [LawfulMonad m] {β : Type} (backend : Backend m)
  {opened : Opened} {s : Session}

/-- A call goes the same way on the range as on the session. -/
theorem bind_perform (h : opened.Mirrors s) (op : Operation) {f : Answer × Session → m β}
    {g : Answer × Opened → m β}
    (hfg : ∀ answer t after, after.Mirrors t → f (answer, t) = g (answer, after)) :
    s.perform backend op >>= f = opened.perform backend op >>= g := by
  cases op with
  | read n =>
    have hlimit : opened.stream.limit n = n := by rw [RangeStream.limit, h.unbounded]
    simp only [Session.perform, Opened.perform, RangeStream.read, h.unbounded, hlimit, reduceCtorEq,
      if_false, bind_assoc]
    refine h.agrees.bind_read backend fun result u v huv hclosed => ?_
    have hafter (n : Nat) :
        ({ opened with stream := opened.stream.consume v n } : Opened).Mirrors u := by
      refine ⟨huv, by rw [RangeStream.consume, h.unbounded]; rfl, ?_⟩
      have hsame : v.closed = opened.stream.session.closed := by
        rw [huv.closed, hclosed, h.agrees.closed]
      rw [Holds, RangeStream.consume, hsame]
      exact h.holds
    cases result with
    | error e =>
      simp only [pure_bind]
      exact hfg _ _ _ (hafter 0)
    | ok bytes =>
      simp only [pure_bind]
      exact hfg _ _ _ (hafter bytes.size)
  | close =>
    simp only [Session.perform, Opened.perform, h.holds.release_eq backend, bind_assoc, pure_bind]
    refine h.agrees.bind_close backend fun verdict u v huv hclosed => hfg _ _ _ ⟨huv, h.unbounded, ?_⟩
    rw [Holds, huv.closed, hclosed]
    rfl

end Opened.Mirrors

namespace Link

variable {link : Link}

/-- A range that runs from the first byte to the last is verified, and one that begins later
is not. -/
theorem openStream_unbounded (hverify : link.verify = true) {verifier : Option Verifier}
    (hverifier : (link.digest.mapM fun digest => Verifier.ofHex digest.algorithm digest.hex) =
      .ok verifier)
    {start : UInt64} {session : Session}
    (hskip : Session.skipTo { table := link.table, policy := link.policy, proxied := link.proxied }
      start.toNat = .ok session) :
    link.openStream ⟨start, none⟩ =
      .ok ⟨{ session with verifier := if start = 0 then verifier else none }, none⟩ := by
  have hchecked : link.verifierFor ⟨start, none⟩ =
      .ok (if start = 0 then verifier else none) := by
    rw [verifierFor]
    cases hdigest : link.digest with
    | none =>
      rw [hdigest] at hverifier
      obtain rfl : none = verifier := Except.ok.inj hverifier
      simp
    | some digest =>
      rw [hdigest, Option.mapM_some] at hverifier
      by_cases hstart : start = 0
      · simp only [hverify, hstart, boundedLength, and_self, if_true]
        exact hverifier
      · simp [hstart]
  rw [openStream, hskip, hchecked]
  rfl

end Link

/-- A plan with a well-formed digest, if any, has a session at every place from which its link opens
a range to the end of the file; where it opens none, both are refused for the same fault of the
range. Calls on the session and on the opened range, in any order, are the same computation over
every backend: they ask for the same, on the same route, wait as long and answer the same. -/
theorem Plan.sessions_agree {plan : Plan} (hfits : plan.Fits)
    (hdigest : ∀ digest, plan.digest = some digest → digest.WellFormed) (start : UInt64) :
    ∃ link, Link.ofPlan plan = .ok link ∧
      ((∃ fault, (Session.ofPlan plan >>= (·.skipTo start.toNat)) = .error (.range fault) ∧
        ∀ (m : Type → Type) [Monad m] (backend : Backend m),
          link.openRange backend ⟨start, none⟩ = pure (.error (.range fault))) ∨
      ∃ s opened, (Session.ofPlan plan >>= (·.skipTo start.toNat)) = .ok s ∧
        ∀ (m : Type → Type) [Monad m] [LawfulMonad m] (backend : Backend m),
          (link.openRange backend ⟨start, none⟩ = do
            backend.record .sessionOpened
            return .ok opened) ∧
          ∀ ops, answersBy (Session.perform backend) ops s =
            answersBy (Opened.perform backend) ops opened) := by
  obtain ⟨link, hlink, -⟩ := Link.exists_ofPlan hfits
  refine ⟨link, hlink, ?_⟩
  obtain ⟨table, htable, rfl⟩ := Link.eq_of_ofPlan hlink
  obtain ⟨v, hv⟩ : ∃ v, (plan.digest.mapM fun digest =>
      Verifier.ofHex digest.algorithm digest.hex) = .ok v := by
    cases hplan : plan.digest with
    | none => exact ⟨none, rfl⟩
    | some digest =>
      obtain ⟨v, hv⟩ := digest.exists_ofHex_iff.mpr (hdigest digest hplan)
      exact ⟨some v, by rw [Option.mapM_some, hv]; rfl⟩
  -- neither constructor looks at the verifier before it is placed, so both place this session
  let new : Session := { table, policy := .forRoute plan.proxied, proxied := plan.proxied }
  have hsession : (Session.ofPlan plan >>= (·.skipTo start.toNat)) =
      (new.skipTo start.toNat).map fun t => { t with verifier := v } := by
    rw [← new.skipTo_withVerifier, Session.ofPlan, htable, hv]
    rfl
  by_cases hstart : start = 0 ∨ start.toNat < table.total
  · obtain ⟨session, hskip⟩ : ∃ session, new.skipTo start.toNat = .ok session :=
      Session.exists_skipTo (hstart.imp_left (congrArg UInt64.toNat))
    rw [hskip] at hsession
    have hplaced := Session.of_skipTo hskip
    let stream : RangeStream := ⟨{ session with verifier := if start = 0 then v else none }, none⟩
    have hstream : Link.openStream ⟨table, .forRoute plan.proxied, plan.proxied, plan.digest, true⟩
        ⟨start, none⟩ = .ok stream := Link.openStream_unbounded rfl hv hskip
    refine Or.inr ⟨_, ⟨stream, ReleaseSet.add {} .session⟩, hsession,
      fun m _ _ backend => ⟨Link.openRange_of_ok backend hstream, fun ops => ?_⟩⟩
    have hmirrors : Opened.Mirrors ⟨stream, ReleaseSet.add {} .session⟩
        { session with verifier := v } := by
      refine ⟨⟨rfl, fun hzero => ?_⟩, rfl, ?_⟩
      · have hfirst : start.toNat = 0 := by
          rw [hplaced] at hzero
          exact hzero
        exact if_pos (UInt64.toNat.inj hfirst)
      · have hopen : stream.session.closed = false := by
          simp only [stream]
          rw [hplaced]
        rw [Opened.Holds, hopen]
        rfl
    exact answersBy_eq (fun t after => after.Mirrors t)
      (fun t after op h f g hfg => h.bind_perform backend op hfg) hmirrors ops
  · have hbehind : new.skipTo start.toNat = .error (.range (.beyondEnd start.toNat table.total)) :=
      Session.skipTo_of_not fun h => hstart (h.imp_left fun hzero => UInt64.toNat.inj hzero)
    refine Or.inl ⟨_, by rw [hsession, hbehind]; rfl, fun m _ backend => ?_⟩
    exact Link.openRange_of_error backend (Link.openStream_of_not hstart)

/-- A file of two bytes with the recorded digest of no bytes. -/
def twoBytes : Plan where
  chunks := [⟨"a", 1⟩, ⟨"b", 1⟩]
  digest := some ⟨.md5, "d41d8cd98f00b204e9800998ecf8427e"⟩

/-- From the second byte on only the session has a verifier, and no calls tell. -/
theorem sessions_agree_twoBytes :
    twoBytes.Fits ∧ (∀ digest, twoBytes.digest = some digest → digest.WellFormed) ∧
      ∃ s opened, (Session.ofPlan twoBytes >>= (·.skipTo 1)) = .ok s ∧
        ∀ ops, answersBy (Session.perform Program.backend) ops s =
          answersBy (Opened.perform Program.backend) ops opened := by
  have hfits : twoBytes.Fits := by decide
  have hdigest : ∀ digest, twoBytes.digest = some digest → digest.WellFormed := by
    rintro digest ⟨⟩
    decide +kernel
  have hplaced : (Session.ofPlan twoBytes >>= (·.skipTo 1)).toOption.isSome = true := rfl
  obtain ⟨link, -, ⟨fault, hrefused, -⟩ | ⟨s, opened, hs, hsame⟩⟩ :=
    Plan.sessions_agree hfits hdigest 1
  · rw [show (1 : UInt64).toNat = 1 from rfl] at hrefused
    rw [hrefused] at hplaced
    cases hplaced
  · exact ⟨hfits, hdigest, s, opened, hs, (hsame Program Program.backend).2⟩

end ChunkedFile
