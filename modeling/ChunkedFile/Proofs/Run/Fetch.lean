import ChunkedFile.Fetch.Retry
import ChunkedFile.Proofs.Run.Program

/-!
# Runs of a fetch with retries

However often a chunk is asked for, every call is the same one, and what arrives in a run is the
result of the fetch or nothing at all.
-/

namespace ChunkedFile

/-- The call of a step that brought a chunk, and the chunk. -/
def Step.payload? : Step → Option (Call × ByteArray)
  | .fetch call (.ok bytes) => some (call, bytes)
  | _ => none

/-- All chunks that arrived, each with its call. -/
def payloads (steps : List Step) : List (Call × ByteArray) := steps.filterMap Step.payload?

@[simp] theorem payloads_append (first second : List Step) :
    payloads (first ++ second) = payloads first ++ payloads second := List.filterMap_append

/-- A payload of a call is one that a fetch was answered with. -/
theorem mem_payloads_iff {steps : List Step} {call : Call} {bytes : ByteArray} :
    (call, bytes) ∈ payloads steps ↔ Step.fetch call (.ok bytes) ∈ steps := by
  rw [payloads, List.mem_filterMap]
  constructor
  · rintro ⟨step, hmem, hstep⟩
    cases step with
    | fetch other answer =>
      cases answer with
      | ok arrived =>
        simp only [Step.payload?, Option.some.injEq, Prod.mk.injEq] at hstep
        obtain ⟨rfl, rfl⟩ := hstep
        exact hmem
      | error e => simp [Step.payload?] at hstep
    | pause | now | record => simp [Step.payload?] at hstep
  · intro hmem
    exact ⟨_, hmem, rfl⟩

/-- What a fetch that ends in this answer brings. -/
def brought (call : Call) : Except Error ByteArray → List (Call × ByteArray)
  | .ok bytes => [(call, bytes)]
  | .error _ => []

/-- The runs of a fetch under a policy from attempt number `attempt` on. -/
inductive Attempts (policy : RetryPolicy) (call : Call) (started : Nat) :
    Nat → List Step → Except Error ByteArray → Prop
  | arrived (attempt bytes ended) : Attempts policy call started attempt
      [.fetch call (.ok bytes), .now ended, .record (.chunkFetched bytes.size (ended - started))]
      (.ok bytes)
  | cancelled (attempt) : Attempts policy call started attempt
      [.fetch call (.error .cancelled)] (.error .cancelled)
  | gaveUp (attempt e) (hcancel : e ≠ .cancelled) (hlast : policy.retries attempt e = false) :
      Attempts policy call started attempt
        [.fetch call (.error e), .record .fetchFailed] (.error (call.failure attempt e))
  | interrupted (attempt e) (hretries : policy.retries attempt e) :
      Attempts policy call started attempt
        [.fetch call (.error e), .record .fetchRetried, .pause policy.backoff false]
        (.error .cancelled)
  | retried (attempt e rest answer) (hretries : policy.retries attempt e)
      (hrest : Attempts policy call started (attempt + 1) rest answer) :
      Attempts policy call started attempt
        (.fetch call (.error e) :: .record .fetchRetried :: .pause policy.backoff true :: rest)
        answer

/-- What arrives in the attempts is what they end in. -/
theorem Attempts.payloads_eq {policy : RetryPolicy} {call : Call} {started attempt : Nat}
    {steps : List Step} {answer : Except Error ByteArray}
    (h : Attempts policy call started attempt steps answer) :
    payloads steps = brought call answer := by
  induction h with
  | arrived | cancelled | gaveUp | interrupted => rfl
  | retried attempt e rest answer hretries hrest ih => exact ih

/-- A fetch that fails was cancelled or has given the chunk up. -/
theorem Attempts.error_eq {policy : RetryPolicy} {call : Call} {started attempt : Nat}
    {steps : List Step} {e : Error} (h : Attempts policy call started attempt steps (.error e)) :
    e = .cancelled ∨ ∃ attempts cause, e = call.failure attempts cause := by
  generalize hanswer : (.error e : Except Error ByteArray) = answer at h
  induction h with
  | arrived => cases hanswer
  | cancelled | interrupted =>
    rw [Except.error.injEq] at hanswer
    exact Or.inl hanswer
  | gaveUp attempt cause =>
    rw [Except.error.injEq] at hanswer
    exact Or.inr ⟨attempt, cause, hanswer⟩
  | retried attempt cause rest answer hretries hrest ih => exact ih hanswer

namespace Backend

open Program

variable {started attempt : Nat} {call : Call} {policy : RetryPolicy}
  {steps : List Step} {answer : Except Error ByteArray}

/-- Giving up records a failure and returns it with the count of attempts. -/
private theorem giveUp_returns {attempts : Nat} {e : Error}
    (h : (Program.backend.giveUp call attempts e).Returns steps answer) :
    steps = [.record .fetchFailed] ∧ answer = .error (call.failure attempts e) := by
  rw [giveUp, returns_bind_iff] at h
  obtain ⟨first, _, second, hfirst, hsecond, rfl⟩ := h
  rw [returns_record_iff] at hfirst
  rw [returns_pure_iff] at hsecond
  obtain ⟨rfl, rfl⟩ := hsecond
  rw [hfirst]
  exact ⟨rfl, rfl⟩

/-- Once the bytes are there, the clock is read and the fetch is recorded with its time. -/
private theorem now_record_returns {bytes : ByteArray}
    (h : (do
      let ended ← Program.backend.now
      Program.backend.record (.chunkFetched bytes.size (ended - started))
      return .ok bytes : Program (Except Error ByteArray)).Returns steps answer) :
    ∃ ended, steps = [.now ended, .record (.chunkFetched bytes.size (ended - started))] ∧
      answer = .ok bytes := by
  simp only [returns_bind_iff, returns_now_iff, returns_record_iff, returns_pure_iff] at h
  obtain ⟨_, ended, _, rfl, ⟨_, _, _, rfl, ⟨rfl, rfl⟩, rfl⟩, rfl⟩ := h
  exact ⟨ended, rfl, rfl⟩

/-- The attempts at a fetch run as described. -/
theorem fetchAttempts_returns
    (h : (Program.backend.fetchAttempts policy call started attempt).Returns steps answer) :
    Attempts policy call started attempt steps answer := by
  -- one attempt, and what it is followed by where the policy retries
  induction attempt using fetchAttempts.induct policy generalizing steps with
  | case1 attempt ih =>
    rw [fetchAttempts, returns_bind_iff] at h
    obtain ⟨first, reply, second, hfirst, hsecond, rfl⟩ := h
    rw [returns_fetch_iff] at hfirst
    subst hfirst
    split at hsecond
    · obtain ⟨ended, rfl, rfl⟩ := now_record_returns hsecond
      exact .arrived attempt _ ended
    · rw [returns_pure_iff] at hsecond
      obtain ⟨rfl, rfl⟩ := hsecond
      exact .cancelled attempt
    · rename_i e hcancel
      by_cases hretries : policy.retries attempt e
      · rw [dif_pos hretries, returns_bind_iff] at hsecond
        obtain ⟨_, _, third, hrecord, hthird, rfl⟩ := hsecond
        rw [returns_record_iff] at hrecord
        rw [returns_bind_iff] at hthird
        obtain ⟨_, elapsed, rest, hpause, hrest, rfl⟩ := hthird
        rw [returns_pause_iff] at hpause
        rw [hrecord, hpause]
        cases elapsed with
        | false =>
          rw [if_neg Bool.false_ne_true, returns_pure_iff] at hrest
          obtain ⟨rfl, rfl⟩ := hrest
          exact .interrupted attempt e hretries
        | true => exact .retried attempt e rest answer hretries (ih e hretries hrest)
      · rw [dif_neg hretries] at hsecond
        obtain ⟨rfl, rfl⟩ := giveUp_returns hsecond
        exact .gaveUp attempt e hcancel (Bool.eq_false_iff.mpr hretries)

/-- Every attempt is a call for the chunk of the fetch. -/
theorem fetchAttempts_onlyCalls :
    (Program.backend.fetchAttempts policy call started attempt).OnlyCalls (· = call) := by
  induction attempt using fetchAttempts.induct policy with
  | case1 attempt ih =>
    rw [fetchAttempts]
    refine OnlyCalls.bind ⟨rfl, fun _ => trivial⟩ fun reply => ?_
    split
    · exact fun _ => trivial
    · exact trivial
    · rename_i e _
      by_cases hretries : policy.retries attempt e
      · rw [dif_pos hretries]
        intro elapsed
        cases elapsed with
        | false => exact trivial
        | true => exact ih e hretries
      · rw [dif_neg hretries]
        exact trivial

/-- A fetch is made of calls for its chunk. -/
theorem fetchRetrying_onlyCalls :
    (Program.backend.fetchRetrying policy call).OnlyCalls (· = call) :=
  OnlyCalls.bind (fun _ => trivial) fun _ => fetchAttempts_onlyCalls

/-- The runs of a fetch look at the clock and go through the attempts. -/
theorem fetchRetrying_returns
    (h : (Program.backend.fetchRetrying policy call).Returns steps answer) :
    ∃ started rest, steps = .now started :: rest ∧
      Attempts policy call started 1 rest answer := by
  rw [fetchRetrying, returns_bind_iff] at h
  obtain ⟨_, started, rest, hnow, hrest, rfl⟩ := h
  rw [returns_now_iff] at hnow
  exact ⟨started, rest, by rw [hnow]; rfl, fetchAttempts_returns hrest⟩

/-- What arrives in a fetch is what it ends in. -/
theorem fetchRetrying_payloads
    (h : (Program.backend.fetchRetrying policy call).Returns steps answer) :
    payloads steps = brought call answer := by
  obtain ⟨started, rest, rfl, hrest⟩ := fetchRetrying_returns h
  exact hrest.payloads_eq

/-- A fetch that fails was cancelled or has given its chunk up. -/
theorem error_of_fetchRetrying {e : Error}
    (h : (Program.backend.fetchRetrying policy call).Returns steps (.error e)) :
    e = .cancelled ∨ ∃ attempts cause, e = call.failure attempts cause := by
  obtain ⟨started, rest, rfl, hrest⟩ := fetchRetrying_returns h
  exact hrest.error_eq

end Backend

end ChunkedFile
