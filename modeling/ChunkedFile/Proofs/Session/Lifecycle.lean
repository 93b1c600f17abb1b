import ChunkedFile.Proofs.Session.Turns

/-!
# The life of a session

A session is open until its first close and closed from then on. What an open session answers and
counts is told apart from what a closed one does, call by call, and a whole history is then cut at
its first close.
-/

namespace ChunkedFile

/-- Whether a call is a close. -/
def Turn.closes (turn : Turn) : Bool := turn.operation = .close

/-- Whether a call is a close that found the digest wrong. -/
def Turn.failsCheck (turn : Turn) : Bool := turn.answer matches .close (.error _)

/-- What a call comes to on an open session: a read leaves it open and fails by a chunk only, and a
close closes it whatever its verdict, which is a wrong digest if it is an error. -/
def Turn.OnOpen (turn : Turn) : Prop :=
  match turn.operation, turn.answer with
  | .read _, .read result => (∀ e, result = .error e → e.FailsRead) ∧ turn.after.closed = false
  | .close, .close verdict => turn.after.closed = true ∧
      (verdict = .ok () ∨ ∃ expected actual, verdict = .error (.integrity expected actual))
  | _, _ => False

/-- What a call comes to on a closed session: it asks for nothing and changes nothing. -/
def Turn.OnClosed (turn : Turn) (before : Session) : Prop :=
  turn.answer = turn.operation.answerOfClosed ∧ turn.steps = [] ∧ turn.after = before

namespace Session

variable {s t first : Session} {n : Nat} {op : Operation} {steps : List Step} {answer : Answer}
  {result : Except Error ByteArray} {turns : List Turn} {metrics : Metrics}

/-- A read counts fetches and bytes, no more. -/
theorem ReadRun.events_isOfReads (h : ReadRun s n steps result t) :
    ∀ event ∈ events steps, event.IsOfReads := by
  cases h with
  | closed | nothing | overrun | ended => exact fun event hmem => absurd hmem List.not_mem_nil
  | buffered =>
    intro event hmem
    rw [List.mem_singleton.mp hmem]
    exact trivial
  | failed _ _ i size address fetching e hneed hfetch =>
    exact Backend.events_of_fetchRetrying hfetch
  | refused _ _ i size address fetching bytes e hneed hfetch haccept =>
    exact Backend.events_of_fetchRetrying hfetch
  | fetched _ _ i size address fetching bytes taken hneed hfetch haccept =>
    intro event hmem
    rw [events_append, List.mem_append] at hmem
    rcases hmem with hmem | hmem
    · exact Backend.events_of_fetchRetrying hfetch event hmem
    · rw [List.mem_singleton.mp hmem]
      exact trivial

/-- A call on an open session. -/
theorem Stands.onOpen (hstands : s.Stands) (hopen : s.closed = false)
    (h : (s.perform Program.backend op).Returns steps (answer, t)) :
    Turn.OnOpen ⟨op, steps, answer, t⟩ := by
  cases op with
  | read n =>
    obtain ⟨result, rfl, hread⟩ := perform_read_returns h
    refine ⟨?_, hread.advanced.closed.trans hopen⟩
    rintro e rfl
    exact hread.failsRead hstands hopen
  | close =>
    obtain ⟨verdict, rfl, hclose⟩ := perform_close_returns h
    cases hclose with
    | again hclosed => simp [hopen] at hclosed
    | first _ => exact ⟨rfl, s.shut_cases⟩

/-- A call on a closed session. -/
theorem onClosed (hclosed : s.closed = true)
    (h : (s.perform Program.backend op).Returns steps (answer, t)) :
    Turn.OnClosed ⟨op, steps, answer, t⟩ s := by
  rw [perform_of_closed Program.backend hclosed, Program.returns_pure_iff, Prod.mk.injEq] at h
  obtain ⟨rfl, rfl, rfl⟩ := h
  exact ⟨rfl, rfl, rfl⟩

/-- The first close counts a session closed and, where its verdict is an error, a failed check; no
other call counts either. -/
theorem sessions_of_perform (metrics : Metrics)
    (h : (s.perform Program.backend op).Returns steps (answer, t)) :
    (metrics.after steps).sessionsClosed = metrics.sessionsClosed +
      (if s.closed = false ∧ Turn.closes ⟨op, steps, answer, t⟩ then 1 else 0) ∧
    (metrics.after steps).integrityFailures = metrics.integrityFailures +
      (if s.closed = false ∧ Turn.closes ⟨op, steps, answer, t⟩ ∧
        Turn.failsCheck ⟨op, steps, answer, t⟩ then 1 else 0) := by
  cases op with
  | read n =>
    obtain ⟨result, rfl, hread⟩ := perform_read_returns h
    have hsame : metrics.SameSessions (metrics.after steps) :=
      Metrics.sameSessions_of_reads hread.events_isOfReads
    simp [hsame.closed, hsame.failed, Turn.closes]
  | close =>
    obtain ⟨verdict, rfl, hclose⟩ := perform_close_returns h
    cases hclose with
    | again hclosed => simp [hclosed]
    | first hopen =>
      cases s.shut.1 with
      | ok =>
        have hevents : events (closing (.ok ())) = [.sessionClosed] := rfl
        simp [hopen, hevents, Metrics.after, Metrics.record, Turn.closes, Turn.failsCheck]
      | error e =>
        have hevents : events (closing (.error e)) = [.sessionClosed, .integrityFailed] := rfl
        simp [hopen, hevents, Metrics.after, Metrics.record, Turn.closes, Turn.failsCheck]

/-- A history counts one session closed where it has a close, and one failed check where its first
close found the digest wrong. -/
theorem Turns.sessions (h : first.Turns turns t) (hopen : first.closed = false)
    (metrics : Metrics) :
    (metrics.after (turns.flatMap Turn.steps)).sessionsClosed =
      metrics.sessionsClosed + (if turns.any Turn.closes then 1 else 0) ∧
    (metrics.after (turns.flatMap Turn.steps)).integrityFailures = metrics.integrityFailures +
      (if (turns.find? Turn.closes).any Turn.failsCheck then 1 else 0) := by
  induction h with
  | nil => simp
  | @snoc turns s t op steps answer before call ih =>
    obtain ⟨hclosed, hfailed⟩ := ih
    obtain ⟨hnow, hcheck⟩ := sessions_of_perform (metrics.after (turns.flatMap Turn.steps)) call
    have hbefore : s.closed = turns.any Turn.closes := by
      rw [Bool.eq_iff_iff, before.closed_iff hopen]
      simp [Turn.closes]
    rw [List.flatMap_append, List.flatMap_singleton, Metrics.after_append, List.any_append,
      List.find?_append, hnow, hcheck, hclosed, hfailed, hbefore]
    -- only the first close counts, so what matters is whether there was one before this call
    cases hfind : turns.find? Turn.closes with
    | none =>
      have hany : turns.any Turn.closes = false := by
        rw [List.any_eq_false]
        exact List.find?_eq_none.mp hfind
      by_cases hcloses : Turn.closes ⟨op, steps, answer, t⟩ = true
      · simp [hany, hcloses]
      · simp [hany, hcloses]
    | some close =>
      have hany : turns.any Turn.closes = true :=
        List.any_eq_true.mpr ⟨close, List.mem_of_find?_eq_some hfind, List.find?_some hfind⟩
      simp [hany]

/-- The life of a session, whatever is called and answered: it is open before its first close and
closed from then on, every call before and after that is as it has to be, a collector counts it
closed once, and no close waits for anything. -/
theorem Built.lifecycle (hbuilt : first.Built) (hturns : first.Turns turns t) (metrics : Metrics) :
    (∀ before turn rest, turns = before ++ turn :: rest → ∃ s, first.Turns before s ∧
      ((∀ earlier ∈ before, earlier.operation ≠ .close) → s.closed = false ∧ turn.OnOpen) ∧
      ((∃ earlier ∈ before, earlier.operation = .close) → s.closed = true ∧ turn.OnClosed s)) ∧
    (t.closed = true ↔ ∃ turn ∈ turns, turn.operation = .close) ∧
    (metrics.after (turns.flatMap Turn.steps)).sessionsClosed =
      metrics.sessionsClosed + (if turns.any Turn.closes then 1 else 0) ∧
    (metrics.after (turns.flatMap Turn.steps)).integrityFailures = metrics.integrityFailures +
      (if (turns.find? Turn.closes).any Turn.failsCheck then 1 else 0) ∧
    (t.closed = false → ∃ verdict u,
      (t.perform Program.backend .close).Returns (closing verdict) (.close verdict, u)) ∧
    (t.closed = true → ∀ op, t.perform Program.backend op = pure (op.answerOfClosed, t)) := by
  have hfresh := hbuilt.fresh
  obtain ⟨hsessions, hchecks⟩ := hturns.sessions hfresh.isOpen metrics
  refine ⟨?_, hturns.closed_iff hfresh.isOpen, hsessions, hchecks,
    fun hopen => ⟨_, _, perform_close_of_open hopen⟩, perform_of_closed Program.backend⟩
  rintro before turn rest rfl
  obtain ⟨s, hbefore, hcall⟩ := hturns.of_append
  have hclosed := hbefore.closed_iff hfresh.isOpen
  refine ⟨s, hbefore, ?_, ?_⟩
  · intro hnone
    have hopen : s.closed = false := by
      by_contra h
      obtain ⟨earlier, hmem, hclose⟩ := hclosed.mp (by simpa using h)
      exact hnone earlier hmem hclose
    exact ⟨hopen, (hbefore.stands hfresh.stands hopen).onOpen hopen hcall⟩
  · intro hsome
    have hshut := hclosed.mpr hsome
    exact ⟨hshut, onClosed hshut hcall⟩

end Session

/-- A session on one byte after a cancelled read, a close and a read of nothing. -/
theorem lifecycle_oneByte :
    oneByte.Built ∧ oneByte.Turns oneByteTurns oneByteClosed ∧ oneByteClosed.closed = true ∧
      (Metrics.after {} (oneByteTurns.flatMap Turn.steps)).sessionsClosed = 1 ∧
      (Metrics.after {} (oneByteTurns.flatMap Turn.steps)).integrityFailures = 0 := by
  obtain ⟨-, hclosed, hsessions, hchecks, -, -⟩ :=
    oneByte_built.lifecycle oneByte_turns {}
  have hclose : ∃ turn ∈ oneByteTurns, turn.operation = .close :=
    ⟨_, List.mem_cons_of_mem _ (List.mem_cons_self ..), rfl⟩
  refine ⟨oneByte_built, oneByte_turns, hclosed.mpr hclose, ?_, ?_⟩
  · rw [hsessions]
    decide
  · rw [hchecks]
    decide

end ChunkedFile
