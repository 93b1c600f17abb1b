import Mathlib.Order.Bounds.Basic
import ChunkedFile.Proofs.Run.Events

/-!
# How many attempts a fetch makes

A fetch asks for its chunk again after every error that may pass, until its attempts are used up.
`Follows` fixes what the calls of a run come to and leaves all else open. The first outcome that
ends a fetch, or its last attempt, then decides everything that the fetch asks for, counts and
returns.
-/

namespace ChunkedFile

/-- The call that a step makes. -/
def Step.call? : Step → Option Call
  | .fetch call _ => some call
  | _ => none

/-- The calls of some steps in their order. -/
def callsOf (steps : List Step) : List Call := steps.filterMap Step.call?

/-- The length of the pause that a step makes. -/
def Step.pause? : Step → Option Nat
  | .pause ms _ => some ms
  | _ => none

/-- The pauses of some steps in their order. -/
def pausesOf (steps : List Step) : List Nat := steps.filterMap Step.pause?

/-- The calls of some steps, numbered from `n` on, come out as is told, and no pause is cut off. -/
def Follows (outcomes : Nat → Except Error ByteArray) : Nat → List Step → Prop
  | _, [] => True
  | n, .fetch _ outcome :: rest => outcome = outcomes n ∧ Follows outcomes (n + 1) rest
  | n, .pause _ elapsed :: rest => elapsed = true ∧ Follows outcomes n rest
  | n, .now _ :: rest | n, .record _ :: rest => Follows outcomes n rest

/-- No other attempt is made after this outcome: the chunk arrived, or the error will not pass. A
cancellation is no error that may pass. -/
def EndsFetch : Except Error ByteArray → Prop
  | .ok _ => True
  | .error e => e.isTransient = false

/-- What a fetch returns whose last attempt, number `attempts`, came out like this: an error is told
with the address of the chunk, the status that the store answered with, the number of attempts and
the error's own words. A cancellation is told as it is. -/
def Call.resultAfter (call : Call) (attempts : Nat) :
    Except Error ByteArray → Except Error ByteArray
  | .ok bytes => .ok bytes
  | .error .cancelled => .error .cancelled
  | .error e => .error (.fetchFailed call.address e.storeStatus attempts e.message)

/-- What a fetch that took so long counts in the end. -/
def countsAfter (nanos : Nat) : Except Error ByteArray → List Event
  | .ok bytes => [.chunkFetched bytes.size nanos]
  | .error .cancelled => []
  | .error _ => [.fetchFailed]

variable {outcomes : Nat → Except Error ByteArray} {call : Call} {steps : List Step}
  {answer : Except Error ByteArray} {policy : RetryPolicy} {backoff started attempt n : Nat}

/-- Every program has a run in which its calls come out as is told. -/
theorem Program.exists_follows {α : Type} (outcomes : Nat → Except Error ByteArray)
    (p : Program α) (n : Nat) : ∃ steps value, p.Returns steps value ∧ Follows outcomes n steps := by
  induction p generalizing n with
  | done value => exact ⟨[], value, .refl _, trivial⟩
  | fetch call next ih =>
    obtain ⟨steps, value, hrest, hfollows⟩ := ih (outcomes n) (n + 1)
    exact ⟨_, value, .cons (.fetch call next (outcomes n)) hrest, rfl, hfollows⟩
  | pause ms next ih =>
    obtain ⟨steps, value, hrest, hfollows⟩ := ih true n
    exact ⟨_, value, .cons (.pause ms next true) hrest, rfl, hfollows⟩
  | now next ih =>
    obtain ⟨steps, value, hrest, hfollows⟩ := ih 0 n
    exact ⟨_, value, .cons (.now next 0) hrest, hfollows⟩
  | record event next ih =>
    obtain ⟨steps, value, hrest, hfollows⟩ := ih n
    exact ⟨_, value, .cons (.record event next) hrest, hfollows⟩

/-- An error other than a cancellation is what a fetch that gives up fails with, and is counted as a
failure. -/
theorem resultAfter_of_ne_cancelled (call : Call) (n nanos : Nat) {e : Error}
    (h : e ≠ .cancelled) :
    call.resultAfter n (.error e) = .error (call.failure n e) ∧
      countsAfter nanos (.error e) = [.fetchFailed] := by
  cases e with
  | cancelled => exact absurd rfl h
  | _ => exact ⟨rfl, rfl⟩

/-- What the attempts at a fetch come to that begin with number `attempt` and end `n` later. -/
structure AttemptsEnd (outcomes : Nat → Except Error ByteArray) (call : Call)
    (backoff attempt n : Nat) (steps : List Step) (answer : Except Error ByteArray) : Prop where
  calls : callsOf steps = List.replicate (n + 1) call
  pauses : pausesOf steps = List.replicate n backoff
  answer : answer = call.resultAfter (attempt + n) (outcomes (attempt + n))
  events : ∃ nanos,
    events steps = List.replicate n .fetchRetried ++ countsAfter nanos (outcomes (attempt + n))

/-- An attempt that is the last. -/
theorem AttemptsEnd.last {outcome : Except Error ByteArray} (nanos : Nat)
    (houtcome : outcome = outcomes attempt) (hcalls : callsOf steps = [call])
    (hpauses : pausesOf steps = []) (hanswer : answer = call.resultAfter attempt outcome)
    (hevents : ChunkedFile.events steps = countsAfter nanos outcome) :
    AttemptsEnd outcomes call backoff attempt 0 steps answer := by
  rw [houtcome] at hanswer hevents
  exact ⟨hcalls, hpauses, hanswer, nanos, hevents⟩

/-- One more attempt before the others. -/
theorem AttemptsEnd.retried {e : Error}
    (h : AttemptsEnd outcomes call backoff (attempt + 1) n steps answer) :
    AttemptsEnd outcomes call backoff attempt (n + 1)
      (.fetch call (.error e) :: .record .fetchRetried :: .pause backoff true :: steps) answer := by
  have hnumber : attempt + 1 + n = attempt + (n + 1) := by omega
  obtain ⟨hcalls, hpauses, hanswer, nanos, hevents⟩ := h
  rw [hnumber] at hanswer hevents
  refine ⟨?_, ?_, hanswer, nanos, ?_⟩
  · rw [List.replicate_succ, ← hcalls]
    rfl
  · rw [List.replicate_succ, ← hpauses]
    rfl
  · rw [List.replicate_succ, List.cons_append, ← hevents]
    rfl

/-- The attempts end with the first outcome that ends a fetch, or with the last that the policy
allows. -/
theorem Attempts.end_of_follows (h : Attempts policy call started attempt steps answer)
    (hfollows : Follows outcomes attempt steps) :
    ∃ n, (∀ i < n, attempt + i < policy.maxAttempts ∧ ¬ EndsFetch (outcomes (attempt + i))) ∧
      (policy.maxAttempts ≤ attempt + n ∨ EndsFetch (outcomes (attempt + n))) ∧
      AttemptsEnd outcomes call policy.backoff attempt n steps answer := by
  have hnone (attempt : Nat) : ∀ i < 0,
      attempt + i < policy.maxAttempts ∧ ¬ EndsFetch (outcomes (attempt + i)) :=
    fun i hi => absurd hi (Nat.not_lt_zero i)
  induction h with
  | arrived attempt bytes ended =>
    obtain ⟨houtcome, -⟩ := hfollows
    refine ⟨0, hnone attempt, Or.inr ?_, .last (ended - started) houtcome rfl rfl rfl rfl⟩
    rw [Nat.add_zero, ← houtcome]
    exact trivial
  | cancelled attempt =>
    obtain ⟨houtcome, -⟩ := hfollows
    refine ⟨0, hnone attempt, Or.inr ?_, .last 0 houtcome rfl rfl rfl rfl⟩
    rw [Nat.add_zero, ← houtcome]
    rfl
  | gaveUp attempt e hcancel hlast =>
    obtain ⟨houtcome, -⟩ := hfollows
    obtain ⟨hresult, hcounts⟩ := resultAfter_of_ne_cancelled call attempt 0 hcancel
    refine ⟨0, hnone attempt, ?_, .last 0 houtcome rfl rfl hresult.symm hcounts.symm⟩
    rw [Nat.add_zero, ← houtcome]
    by_contra hgoes
    rw [not_or, Nat.not_le, EndsFetch, Bool.not_eq_false] at hgoes
    rw [RetryPolicy.retries_iff.mpr hgoes] at hlast
    cases hlast
  | interrupted attempt e hretries =>
    obtain ⟨-, hcut, -⟩ := hfollows
    cases hcut
  | retried attempt e rest answer hretries hrest ih =>
    obtain ⟨houtcome, -, hothers⟩ := hfollows
    obtain ⟨n, hbefore, hlast, hend⟩ := ih hothers
    obtain ⟨hlt, htransient⟩ := RetryPolicy.retries_iff.mp hretries
    refine ⟨n + 1, ?_, ?_, hend.retried⟩
    · intro i hi
      cases i with
      | zero =>
        refine ⟨hlt, ?_⟩
        rw [Nat.add_zero, ← houtcome, EndsFetch, htransient]
        exact Bool.noConfusion
      | succ i =>
        rw [show attempt + (i + 1) = attempt + 1 + i by omega]
        exact hbefore i (Nat.lt_of_succ_lt_succ hi)
    · rw [show attempt + (n + 1) = attempt + 1 + n by omega]
      exact hlast

/-- The attempts of a fetch under a policy that end its calls: the first whose outcome ends a fetch,
or the last that the policy allows; a policy of no attempts allows one. -/
def RetryPolicy.decisive (policy : RetryPolicy) (outcomes : Nat → Except Error ByteArray) :
    Set Nat :=
  {k | 1 ≤ k ∧ (EndsFetch (outcomes k) ∨ k = max 1 policy.maxAttempts)}

/-- Whatever its calls come to, a fetch whose waits are not cancelled has a run, and every such run
ends with the first decisive attempt, number `k`: it makes `k` calls, all for its chunk, and pauses
between them, it returns what that attempt came to, and it counts a retry for each attempt before
and the chunk or the failure in the end. -/
theorem Backend.fetchRetrying_decided (policy : RetryPolicy) (call : Call)
    (outcomes : Nat → Except Error ByteArray) :
    (∃ steps answer, (Program.backend.fetchRetrying policy call).Returns steps answer ∧
      Follows outcomes 1 steps) ∧
    ∃ k, IsLeast (policy.decisive outcomes) k ∧
      ∀ steps answer, (Program.backend.fetchRetrying policy call).Returns steps answer →
        Follows outcomes 1 steps →
        callsOf steps = List.replicate k call ∧
        pausesOf steps = List.replicate (k - 1) policy.backoff ∧
        answer = call.resultAfter k (outcomes k) ∧
        ∃ nanos, events steps =
          List.replicate (k - 1) .fetchRetried ++ countsAfter nanos (outcomes k) := by
  -- the attempts that every run makes are numbered from one up to the decisive one
  have hrun : ∀ steps answer, (Program.backend.fetchRetrying policy call).Returns steps answer →
      Follows outcomes 1 steps → ∃ n, IsLeast (policy.decisive outcomes) (1 + n) ∧
        AttemptsEnd outcomes call policy.backoff 1 n steps answer := by
    intro steps answer hreturns hfollows
    obtain ⟨started, rest, rfl, hrest⟩ := fetchRetrying_returns hreturns
    obtain ⟨n, hbefore, hlast, hcalls, hpauses, hanswer, hevents⟩ := hrest.end_of_follows hfollows
    refine ⟨n, ⟨⟨by omega, ?_⟩, ?_⟩, hcalls, hpauses, hanswer, hevents⟩
    · refine hlast.symm.imp id fun hmost => ?_
      cases n with
      | zero => omega
      | succ n =>
        have hlt := (hbefore n (Nat.lt_succ_self n)).1
        omega
    · rintro k ⟨hone, hdecides⟩
      by_contra hless
      obtain ⟨hlt, hgoes⟩ := hbefore (k - 1) (by omega)
      rw [show 1 + (k - 1) = k by omega] at hlt hgoes
      rcases hdecides with hends | hmost
      · exact hgoes hends
      · omega
  obtain ⟨steps, answer, hreturns, hfollows⟩ := Program.exists_follows outcomes
    (Program.backend.fetchRetrying policy call) 1
  obtain ⟨n, hleast, -⟩ := hrun steps answer hreturns hfollows
  refine ⟨⟨steps, answer, hreturns, hfollows⟩, 1 + n, hleast, ?_⟩
  intro steps answer hreturns hfollows
  obtain ⟨n', hleast', hcalls, hpauses, hanswer, hevents⟩ := hrun steps answer hreturns hfollows
  obtain rfl : n = n' := Nat.add_left_cancel (hleast.unique hleast')
  rw [Nat.add_sub_cancel_left]
  rw [Nat.add_comm] at hcalls
  exact ⟨hcalls, hpauses, hanswer, hevents⟩

/-- A timeout, a server's fault, and a chunk of one byte ever after. -/
def lateOutcomes : Nat → Except Error ByteArray
  | 1 => .error (.timeout "t")
  | 2 => .error (.badStatus 503 "s")
  | _ => .ok ⟨#[7]⟩

/-- Three attempts at the chunk, half a second apart. -/
def lateSteps : List Step :=
  [.now 0, .fetch ⟨"a", true⟩ (.error (.timeout "t")), .record .fetchRetried, .pause 500 true,
    .fetch ⟨"a", true⟩ (.error (.badStatus 503 "s")), .record .fetchRetried, .pause 500 true,
    .fetch ⟨"a", true⟩ (.ok ⟨#[7]⟩), .now 9000, .record (.chunkFetched 1 9000)]

/-- A timeout, and a server's fault ever after. -/
def lostOutcomes : Nat → Except Error ByteArray
  | 1 => .error (.timeout "t")
  | _ => .error (.badStatus 503 "s")

/-- Neither a timeout nor a server's fault ends a fetch, so all attempts are made. -/
theorem isLeast_lostOutcomes : IsLeast (RetryPolicy.viaProxy.decisive lostOutcomes) 3 := by
  refine ⟨⟨by decide, Or.inr (by decide)⟩, ?_⟩
  rintro k ⟨hone, hends | hmost⟩
  · by_contra hless
    obtain rfl | rfl : k = 1 ∨ k = 2 := by omega
    · cases hends
    · cases hends
  · exact Nat.le_of_eq hmost.symm

/-- The last attempt that the policy allows is the decisive one. It may bring the chunk. Where it
fails, so does the fetch, with the status and the words of that attempt's error and the number of
attempts. -/
theorem fetchRetrying_decided_late :
    ((Program.backend.fetchRetrying .viaProxy ⟨"a", true⟩).Returns lateSteps (.ok ⟨#[7]⟩) ∧
      Follows lateOutcomes 1 lateSteps ∧
      IsLeast (RetryPolicy.viaProxy.decisive lateOutcomes) 3 ∧
      callsOf lateSteps = List.replicate 3 ⟨"a", true⟩ ∧
      pausesOf lateSteps = List.replicate 2 500) ∧
    ∃ steps, Follows lostOutcomes 1 steps ∧
      (Program.backend.fetchRetrying .viaProxy ⟨"a", true⟩).Returns steps
        (.error (.fetchFailed "a" (some 503) 3 "Upstream returned 503: s")) ∧
      callsOf steps = List.replicate 3 ⟨"a", true⟩ ∧
      pausesOf steps = List.replicate 2 500 ∧
      events steps = [.fetchRetried, .fetchRetried, .fetchFailed] := by
  constructor
  · have hreturns : (Program.backend.fetchRetrying .viaProxy ⟨"a", true⟩).Returns lateSteps
        (.ok ⟨#[7]⟩) := by
      apply Program.returns_of_follow
      with_unfolding_all rfl
    have hfollows : Follows lateOutcomes 1 lateSteps := by
      simp [Follows, lateSteps, lateOutcomes]
    obtain ⟨-, k, hleast, hdecided⟩ :=
      Backend.fetchRetrying_decided .viaProxy ⟨"a", true⟩ lateOutcomes
    obtain ⟨hcalls, hpauses, -⟩ := hdecided _ _ hreturns hfollows
    have hlength : (callsOf lateSteps).length = 3 := rfl
    obtain rfl : k = 3 := by rw [← hlength, hcalls, List.length_replicate]
    exact ⟨hreturns, hfollows, hleast, hcalls, hpauses⟩
  · obtain ⟨⟨steps, answer, hreturns, hfollows⟩, k, hleast, hdecided⟩ :=
      Backend.fetchRetrying_decided .viaProxy ⟨"a", true⟩ lostOutcomes
    obtain rfl : k = 3 := hleast.unique isLeast_lostOutcomes
    obtain ⟨hcalls, hpauses, hanswer, nanos, hevents⟩ := hdecided steps answer hreturns hfollows
    rw [hanswer] at hreturns
    exact ⟨steps, hfollows, hreturns, hcalls, hpauses, hevents⟩

end ChunkedFile
