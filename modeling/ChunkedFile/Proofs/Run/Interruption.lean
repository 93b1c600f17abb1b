import ChunkedFile.Proofs.Run.Fetch

/-!
# Where programs wait

A program waits at its calls and pauses, and only there can it be given up from outside. A program
that cancels to a value ends in that value at once wherever a wait is cancelled, so giving it up
comes to the same as cancelling it.
-/

namespace ChunkedFile

/-- The cancellation of a wait. -/
def Step.IsCancelled : Step → Prop
  | .fetch _ (.error .cancelled) => True
  | .pause _ false => True
  | _ => False

namespace Program

variable {α β : Type} {p q : Program α} {a : α} {steps : List Step}

/-- The program asks for something that takes its time. -/
def waits : Program α → Bool
  | .fetch .. | .pause .. => true
  | .done _ | .now _ | .record .. => false

/-- Whatever was answered before, a wait that is cancelled ends the program with a value at once. -/
def CancelsTo (value : α) : Program α → Prop
  | .done _ => True
  | .fetch _ next =>
    next (.error .cancelled) = .done value ∧ ∀ answer, (next answer).CancelsTo value
  | .pause _ next => next false = .done value ∧ ∀ elapsed, (next elapsed).CancelsTo value
  | .now next => ∀ time, (next time).CancelsTo value
  | .record _ next => next.CancelsTo value

namespace CancelsTo

/-- A composition cancels where its second part ends at once after a cancelled first. -/
theorem bind {f : α → Program β} {b : β} (hp : p.CancelsTo a) (hab : f a = .done b)
    (hf : ∀ value, (f value).CancelsTo b) : (p >>= f).CancelsTo b := by
  rw [bind_eq]
  induction p with
  | done value => exact hf value
  | fetch call next ih =>
    refine ⟨?_, fun answer => ih answer (hp.2 answer)⟩
    simp only [hp.1, andThen, hab]
  | pause ms next ih =>
    refine ⟨?_, fun elapsed => ih elapsed (hp.2 elapsed)⟩
    simp only [hp.1, andThen, hab]
  | now next ih => exact fun time => ih time (hp time)
  | record event next ih => exact ih hp

/-- What is left of a program cancels to the same value. -/
theorem of_reaches (h : p.CancelsTo a) (hreaches : p.Reaches steps q) : q.CancelsTo a := by
  induction hreaches with
  | refl => exact h
  | cons hstep _ ih =>
    refine ih ?_
    cases hstep with
    | fetch call next answer => exact h.2 answer
    | pause ms next elapsed => exact h.2 elapsed
    | now next time => exact h time
    | record event next => exact h

/-- A program that is given up while it waits might as well have been cancelled there. -/
theorem returns_of_waits (h : p.CancelsTo a) (hreaches : p.Reaches steps q)
    (hwaits : q.waits = true) :
    ∃ last, last.IsCancelled ∧ p.Returns (steps ++ [last]) a := by
  have hleft := h.of_reaches hreaches
  cases q with
  | fetch call next =>
    have hlast : (Program.fetch call next).Does (.fetch call (.error .cancelled)) (.done a) := by
      rw [← hleft.1]
      exact .fetch call next _
    exact ⟨.fetch call (.error .cancelled), trivial, hreaches.append (.cons hlast (.refl _))⟩
  | pause ms next =>
    have hlast : (Program.pause ms next).Does (.pause ms false) (.done a) := by
      rw [← hleft.1]
      exact .pause ms next _
    exact ⟨.pause ms false, trivial, hreaches.append (.cons hlast (.refl _))⟩
  | done | now | record => cases hwaits

end CancelsTo

end Program

namespace Backend

variable {policy : RetryPolicy} {call : Call} {started attempt : Nat}

open Program

/-- A fetch that is cancelled between its attempts or during one makes no other. -/
theorem fetchAttempts_cancelsTo :
    (Program.backend.fetchAttempts policy call started attempt).CancelsTo (.error .cancelled) := by
  induction attempt using fetchAttempts.induct policy with
  | case1 attempt ih =>
    rw [fetchAttempts]
    refine ⟨rfl, fun reply => ?_⟩
    simp only [andThen]
    split
    · exact fun _ => trivial
    · exact trivial
    · rename_i e _
      by_cases hretries : policy.retries attempt e
      · rw [dif_pos hretries]
        refine ⟨rfl, fun elapsed => ?_⟩
        cases elapsed with
        | false => exact trivial
        | true => exact ih e hretries
      · rw [dif_neg hretries]
        exact trivial

/-- A fetch that is cancelled in one of its waits returns that it was. -/
theorem fetchRetrying_cancelsTo :
    (Program.backend.fetchRetrying policy call).CancelsTo (.error .cancelled) :=
  fun _ => fetchAttempts_cancelsTo

end Backend

end ChunkedFile
