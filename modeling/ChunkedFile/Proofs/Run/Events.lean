import ChunkedFile.Proofs.Run.Fetch

/-!
# What runs count

A collector that is attached to a run counts the events of its steps in their order. Fetches and
reads count chunks, retries, failures and bytes; the counters of sessions and of failed checks are
none of theirs.
-/

namespace ChunkedFile

/-- The event that a step counts. -/
def Step.event? : Step → Option Event
  | .record event => some event
  | _ => none

/-- The events of some steps in their order. -/
def events (steps : List Step) : List Event := steps.filterMap Step.event?

@[simp] theorem events_nil : events [] = [] := rfl

@[simp] theorem events_append (first second : List Step) :
    events (first ++ second) = events first ++ events second := List.filterMap_append

/-- The counters after some steps. -/
def Metrics.after (metrics : Metrics) (steps : List Step) : Metrics :=
  (events steps).foldl Metrics.record metrics

@[simp] theorem Metrics.after_nil (metrics : Metrics) : metrics.after [] = metrics := rfl

theorem Metrics.after_append (metrics : Metrics) (first second : List Step) :
    metrics.after (first ++ second) = (metrics.after first).after second := by
  rw [after, events_append, List.foldl_append]
  rfl

/-- What fetches and reads count. -/
def Event.IsOfReads : Event → Prop
  | .chunkFetched .. | .fetchRetried | .fetchFailed | .bytesDelivered _ => True
  | .sessionOpened | .sessionClosed | .integrityFailed => False

/-- The counters that no fetch and no read touches. -/
structure Metrics.SameSessions (before after : Metrics) : Prop where
  opened : after.sessionsOpened = before.sessionsOpened
  closed : after.sessionsClosed = before.sessionsClosed
  failed : after.integrityFailures = before.integrityFailures

/-- Where only fetches and reads are counted, the counters of sessions stay as they are. -/
theorem Metrics.sameSessions_of_reads {metrics : Metrics} {steps : List Step}
    (h : ∀ event ∈ events steps, event.IsOfReads) : metrics.SameSessions (metrics.after steps) := by
  rw [after]
  generalize events steps = counted at h
  induction counted generalizing metrics with
  | nil => exact ⟨rfl, rfl, rfl⟩
  | cons event rest ih =>
    have hrest : (metrics.record event).SameSessions
        (rest.foldl Metrics.record (metrics.record event)) :=
      ih fun event hmem => h event (List.mem_cons_of_mem _ hmem)
    have hfirst := h event (List.mem_cons_self ..)
    have hsame : metrics.SameSessions (metrics.record event) := by
      cases event with
      | chunkFetched | fetchRetried | fetchFailed | bytesDelivered => exact ⟨rfl, rfl, rfl⟩
      | sessionOpened | sessionClosed | integrityFailed => exact hfirst.elim
    exact ⟨hrest.opened.trans hsame.opened, hrest.closed.trans hsame.closed,
      hrest.failed.trans hsame.failed⟩

/-- The attempts at a fetch count nothing but fetches. -/
theorem Attempts.events_isOfReads {policy : RetryPolicy} {call : Call} {started attempt : Nat}
    {steps : List Step} {answer : Except Error ByteArray}
    (h : Attempts policy call started attempt steps answer) :
    ∀ event ∈ events steps, event.IsOfReads := by
  induction h with
  | arrived | gaveUp | interrupted =>
    intro event hmem
    rw [List.mem_singleton.mp hmem]
    exact trivial
  | cancelled => exact fun event hmem => absurd hmem List.not_mem_nil
  | retried attempt cause rest answer hretries hrest ih =>
    intro event hmem
    rcases List.mem_cons.mp hmem with rfl | hmem
    · exact trivial
    · exact ih event hmem

/-- A fetch counts nothing but fetches. -/
theorem Backend.events_of_fetchRetrying {policy : RetryPolicy} {call : Call} {steps : List Step}
    {answer : Except Error ByteArray}
    (h : (Program.backend.fetchRetrying policy call).Returns steps answer) :
    ∀ event ∈ events steps, event.IsOfReads := by
  obtain ⟨started, rest, rfl, hrest⟩ := fetchRetrying_returns h
  exact hrest.events_isOfReads

end ChunkedFile
