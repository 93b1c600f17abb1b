import Mathlib.Data.UInt
import ChunkedFile.Proofs.Run.Events

/-!
# What counters come to

A counter that starts at zero comes to the sum of what the events of a run add to it, as long as
that sum is a 64-bit word. Sums do not depend on the order of the steps, so the steps of runs that
go on side by side can be taken run by run. A fetch counts every outcome of the store once, and all
bytes that arrive.
-/

namespace ChunkedFile

/-- A counter of events or of bytes. -/
inductive Counter where
  | sessionsOpened | sessionsClosed
  | chunksFetched | fetchRetries | fetchFailures
  | bytesFetched | bytesDelivered
  | integrityFailures
  deriving DecidableEq, Repr

/-- What an event adds to a counter. -/
def Event.adds : Event → Counter → Nat
  | .sessionOpened, .sessionsOpened => 1
  | .sessionClosed, .sessionsClosed => 1
  | .chunkFetched .., .chunksFetched => 1
  | .chunkFetched bytes _, .bytesFetched => bytes
  | .fetchRetried, .fetchRetries => 1
  | .fetchFailed, .fetchFailures => 1
  | .bytesDelivered bytes, .bytesDelivered => bytes
  | .integrityFailed, .integrityFailures => 1
  | _, _ => 0

/-- The counters of the calls of the store. -/
def Counter.ofCalls : Counter → Bool
  | .chunksFetched | .fetchRetries | .fetchFailures | .bytesFetched => true
  | .sessionsOpened | .sessionsClosed | .bytesDelivered | .integrityFailures => false

/-- The value of a counter. -/
def Metrics.value (metrics : Metrics) : Counter → UInt64
  | .sessionsOpened => metrics.sessionsOpened
  | .sessionsClosed => metrics.sessionsClosed
  | .chunksFetched => metrics.chunksFetched
  | .fetchRetries => metrics.fetchRetries
  | .fetchFailures => metrics.fetchFailures
  | .bytesFetched => metrics.bytesFetched
  | .bytesDelivered => metrics.bytesDelivered
  | .integrityFailures => metrics.integrityFailures

/-- What some steps add to a counter, all together. -/
def total (steps : List Step) (counter : Counter) : Nat :=
  ((events steps).map fun event => event.adds counter).sum

section Totals

variable {first second steps : List Step} {counter : Counter}

@[simp] theorem total_nil : total [] counter = 0 := rfl

@[simp] theorem total_append (first second : List Step) (counter : Counter) :
    total (first ++ second) counter = total first counter + total second counter := by
  simp [total]

/-- An event adds to the counters what it counts. -/
@[simp] theorem total_record (event : Event) (counter : Counter) :
    total [.record event] counter = event.adds counter := rfl

/-- The order of the steps does not matter. -/
theorem total_perm (h : first.Perm second) : total first counter = total second counter :=
  ((h.filterMap Step.event?).map _).sum_nat

/-- Fetches and reads add nothing to the counters of sessions. -/
theorem total_of_reads (h : ∀ event ∈ events steps, event.IsOfReads) :
    total steps .sessionsOpened = 0 ∧ total steps .sessionsClosed = 0 ∧
      total steps .integrityFailures = 0 := by
  simp only [total, List.sum_eq_zero_iff_forall_eq_nat, List.forall_mem_map]
  refine ⟨fun event hmem => ?_, fun event hmem => ?_, fun event hmem => ?_⟩ <;>
  · have hreads := h event hmem
    cases event with
    | chunkFetched | fetchRetried | fetchFailed | bytesDelivered => rfl
    | sessionOpened | sessionClosed | integrityFailed => exact hreads.elim

/-- An event adds to the counters what it says. -/
theorem Metrics.value_record (metrics : Metrics) (event : Event) (counter : Counter) :
    (metrics.record event).value counter =
      metrics.value counter + UInt64.ofNat (event.adds counter) := by
  cases event <;> cases counter <;> simp [record, value, Event.adds]

/-- A counter wraps around, and nothing else is lost. -/
theorem Metrics.value_after (metrics : Metrics) (steps : List Step) (counter : Counter) :
    (metrics.after steps).value counter =
      metrics.value counter + UInt64.ofNat (total steps counter) := by
  rw [after, total]
  generalize events steps = counted
  induction counted generalizing metrics with
  | nil => simp
  | cons event rest ih =>
    rw [List.foldl_cons, ih, value_record, List.map_cons, List.sum_cons, UInt64.ofNat_add,
      UInt64.add_assoc]

/-- No counter keeps anything over a reset. -/
@[simp] theorem Metrics.value_reset (metrics : Metrics) (counter : Counter) :
    metrics.reset.value counter = 0 := by
  cases counter <;> rfl

/-- After a reset a counter comes to the total, where that is a 64-bit word. -/
theorem Metrics.toNat_value_after_reset (metrics : Metrics) (h : total steps counter < 2 ^ 64) :
    ((metrics.reset.after steps).value counter).toNat = total steps counter := by
  rw [value_after, value_reset, UInt64.zero_add, UInt64.toNat_ofNat']
  exact Nat.mod_eq_of_lt h

/-- A counter that starts at zero comes to the total, where that is a 64-bit word. -/
theorem Metrics.toNat_value_after (h : total steps counter < 2 ^ 64) :
    ((Metrics.after {} steps).value counter).toNat = total steps counter :=
  toNat_value_after_reset {} h

end Totals

/-- The store came to an outcome, which no cancellation has got ahead of. -/
def Step.isAnswered : Step → Bool
  | .fetch _ (.error .cancelled) => false
  | .fetch .. => true
  | .pause .. | .now _ | .record _ => false

/-- The number of calls that came to an outcome other than a cancellation. -/
def answered (steps : List Step) : Nat := steps.countP Step.isAnswered

/-- The number of bytes that arrived. -/
def arrived (steps : List Step) : Nat := ((payloads steps).map fun payload => payload.2.size).sum

/-- The counters of fetches account for all calls of the store: each outcome is a chunk, a retry or
a failure, and the bytes are those of the chunks. -/
structure CountsCalls (steps : List Step) : Prop where
  outcomes : total steps .chunksFetched + total steps .fetchRetries + total steps .fetchFailures =
    answered steps
  bytes : total steps .bytesFetched = arrived steps

/-- The steps count calls of the store, and nothing else. -/
structure CountsOnlyCalls (steps : List Step) : Prop extends CountsCalls steps where
  others : ∀ counter : Counter, counter.ofCalls = false → total steps counter = 0

section Calls

variable {first second steps : List Step}

@[simp] theorem answered_append : answered (first ++ second) = answered first + answered second :=
  List.countP_append

@[simp] theorem arrived_append : arrived (first ++ second) = arrived first + arrived second := by
  simp [arrived]

/-- In another order the same bytes arrive. -/
theorem arrived_perm (h : first.Perm second) : arrived first = arrived second :=
  ((h.filterMap Step.payload?).map _).sum_nat

/-- No policy makes another attempt after a cancellation. -/
theorem RetryPolicy.ne_cancelled {policy : RetryPolicy} {attempt : Nat} {e : Error}
    (hretries : policy.retries attempt e) : e ≠ .cancelled := by
  rintro rfl
  cases (retries_iff.mp hretries).2

/-- An attempt that fails, and is not cancelled, came to an outcome. -/
theorem answered_failed {call : Call} {e : Error} (hcancel : e ≠ .cancelled) :
    answered (.fetch call (.error e) :: steps) = answered steps + 1 := by
  have hstep : Step.isAnswered (.fetch call (.error e)) = true := by
    cases e with
    | cancelled => exact absurd rfl hcancel
    | _ => rfl
  rw [answered, List.countP_cons_of_pos hstep, answered]

namespace CountsCalls

theorem nil : CountsCalls [] := ⟨rfl, rfl⟩

/-- Handing out bytes is no affair of the store. -/
theorem delivered (bytes : Nat) : CountsCalls [.record (.bytesDelivered bytes)] := ⟨rfl, rfl⟩

theorem append (hfirst : CountsCalls first) (hsecond : CountsCalls second) :
    CountsCalls (first ++ second) := by
  have houtcomes := hfirst.outcomes
  have houtcomes' := hsecond.outcomes
  refine ⟨?_, by simp [hfirst.bytes, hsecond.bytes]⟩
  simp only [total_append, answered_append]
  omega

/-- It does not matter in which order the calls were made. -/
theorem perm (h : CountsCalls second) (hperm : first.Perm second) : CountsCalls first := by
  refine ⟨?_, ?_⟩
  · rw [total_perm hperm, total_perm hperm, total_perm hperm, h.outcomes]
    exact (hperm.countP_eq _).symm
  · rw [total_perm hperm, h.bytes, arrived_perm hperm]

/-- What is no affair of the store changes nothing. -/
theorem of_append (h : CountsCalls (first ++ second)) (hanswered : answered second = 0)
    (harrived : arrived second = 0) (htotal : ∀ counter, total second counter = 0) :
    CountsCalls first := by
  have houtcomes := h.outcomes
  have hbytes := h.bytes
  simp only [total_append, answered_append, arrived_append, hanswered, harrived, htotal,
    Nat.add_zero] at houtcomes hbytes
  exact ⟨houtcomes, hbytes⟩

end CountsCalls

namespace CountsOnlyCalls

theorem nil : CountsOnlyCalls [] := ⟨.nil, fun _ _ => rfl⟩

theorem append (hfirst : CountsOnlyCalls first) (hsecond : CountsOnlyCalls second) :
    CountsOnlyCalls (first ++ second) := by
  refine ⟨hfirst.toCountsCalls.append hsecond.toCountsCalls, fun counter hcounter => ?_⟩
  rw [total_append, hfirst.others counter hcounter, hsecond.others counter hcounter]

/-- What counts only calls piece by piece counts only calls. -/
theorem flatMap {α : Type} {pieces : List α} {f : α → List Step}
    (h : ∀ piece ∈ pieces, CountsOnlyCalls (f piece)) : CountsOnlyCalls (pieces.flatMap f) := by
  induction pieces with
  | nil => exact .nil
  | cons piece pieces ih =>
    rw [List.flatMap_cons]
    have hpiece := h piece (List.mem_cons_self ..)
    have hpieces := ih fun other hmem => h other (List.mem_cons_of_mem _ hmem)
    exact hpiece.append hpieces

/-- An attempt that is followed by another is a retry. -/
theorem retry {call : Call} {e : Error} (hcancel : e ≠ .cancelled) (backoff : Nat)
    (elapsed : Bool) :
    CountsOnlyCalls [.fetch call (.error e), .record .fetchRetried, .pause backoff elapsed] := by
  refine ⟨⟨?_, rfl⟩, fun counter hcounter => ?_⟩
  · rw [answered_failed hcancel]
    rfl
  · cases counter <;> first | rfl | cases hcounter

end CountsOnlyCalls

/-- The attempts at a fetch count each outcome once. -/
theorem Attempts.countsOnlyCalls {policy : RetryPolicy} {call : Call} {started attempt : Nat}
    {answer : Except Error ByteArray} (h : Attempts policy call started attempt steps answer) :
    CountsOnlyCalls steps := by
  induction h with
  | arrived =>
    refine ⟨⟨rfl, rfl⟩, fun counter hcounter => ?_⟩
    cases counter <;> first | rfl | cases hcounter
  | cancelled => exact ⟨⟨rfl, rfl⟩, fun _ _ => rfl⟩
  | gaveUp attempt e hcancel =>
    refine ⟨⟨?_, rfl⟩, fun counter hcounter => ?_⟩
    · rw [answered_failed hcancel]
      rfl
    · cases counter <;> first | rfl | cases hcounter
  | interrupted attempt e hretries => exact .retry (RetryPolicy.ne_cancelled hretries) _ false
  | retried attempt e rest answer hretries hrest ih =>
    exact (CountsOnlyCalls.retry (RetryPolicy.ne_cancelled hretries) _ true).append ih

/-- A fetch counts each outcome of the store once. -/
theorem Backend.countsOnlyCalls_of_fetchRetrying {policy : RetryPolicy} {call : Call}
    {answer : Except Error ByteArray}
    (h : (Program.backend.fetchRetrying policy call).Returns steps answer) :
    CountsOnlyCalls steps := by
  obtain ⟨started, rest, rfl, hrest⟩ := fetchRetrying_returns h
  have hclock : CountsOnlyCalls [.now started] := ⟨⟨rfl, rfl⟩, fun _ _ => rfl⟩
  exact hclock.append hrest.countsOnlyCalls

end Calls

end ChunkedFile
