import ChunkedFile.Fetch.Scripted
import ChunkedFile.Link
import ChunkedFile.Proofs.Run.Program

/-!
# Readers answered by a backend

A reader over some backend does what the tree of its requests does when that backend answers them.
So what holds of all paths through the tree holds of the reader over every backend.
-/

namespace ChunkedFile

variable {m : Type → Type} [Monad m] {α β : Type} {store : Backend m}

namespace Program

/-- Lets a backend answer the requests of a program. -/
def answeredBy (store : Backend m) : Program α → m α
  | .done value => pure value
  | .fetch call next => do (next (← store.fetch call)).answeredBy store
  | .pause ms next => do (next (← store.pause ms)).answeredBy store
  | .now next => do (next (← store.now)).answeredBy store
  | .record event next => do
    store.record event
    next.answeredBy store

@[simp] theorem answeredBy_pure (value : α) :
    (pure value : Program α).answeredBy store = pure value := rfl

variable [LawfulMonad m]

/-- Composition is answered part by part. -/
@[simp] theorem answeredBy_bind (p : Program α) (f : α → Program β) :
    (p >>= f).answeredBy store = p.answeredBy store >>= fun value => (f value).answeredBy store := by
  rw [bind_eq]
  induction p with
  | done value => simp [andThen, answeredBy]
  | fetch call next ih => simp [andThen, answeredBy, ih]
  | pause ms next ih => simp [andThen, answeredBy, ih]
  | now next ih => simp [andThen, answeredBy, ih]
  | record event next ih => simp [andThen, answeredBy, ih]

@[simp] theorem answeredBy_fetch (call : Call) :
    (backend.fetch call).answeredBy store = store.fetch call := by
  simp [backend, answeredBy]

@[simp] theorem answeredBy_pause (ms : Nat) :
    (backend.pause ms).answeredBy store = store.pause ms := by
  simp [backend, answeredBy]

@[simp] theorem answeredBy_now : backend.now.answeredBy store = store.now := by
  simp [backend, answeredBy]

@[simp] theorem answeredBy_record (event : Event) :
    (backend.record event).answeredBy store = store.record event := by
  simp [backend, answeredBy]

end Program

variable [LawfulMonad m]

namespace Backend

variable {started attempt attempts : Nat} {call : Call} {e : Error} {policy : RetryPolicy}

theorem giveUp_answeredBy :
    (Program.backend.giveUp call attempts e).answeredBy store = store.giveUp call attempts e := by
  simp only [giveUp, Program.answeredBy_bind, Program.answeredBy_record, Program.answeredBy_pure]

/-- The attempts of a program, answered by a store, are the attempts on that store. -/
theorem fetchAttempts_answeredBy :
    (Program.backend.fetchAttempts policy call started attempt).answeredBy store =
      store.fetchAttempts policy call started attempt := by
  induction attempt using fetchAttempts.induct policy with
  | case1 attempt ih =>
    rw [fetchAttempts, Program.answeredBy_bind, Program.answeredBy_fetch]
    conv => rhs; rw [fetchAttempts]
    congr 1
    funext answer
    split
    · simp only [Program.answeredBy_bind, Program.answeredBy_now, Program.answeredBy_record,
        Program.answeredBy_pure]
    · rfl
    · rename_i e _
      by_cases hretries : policy.retries attempt e
      · rw [dif_pos hretries, dif_pos hretries]
        simp only [Program.answeredBy_bind, Program.answeredBy_record, Program.answeredBy_pause]
        congr 1
        funext _
        congr 1
        funext elapsed
        cases elapsed with
        | false => rfl
        | true => exact ih e hretries
      · rw [dif_neg hretries, dif_neg hretries]
        exact giveUp_answeredBy

/-- A fetch of a program, answered by a store, is the fetch on that store. -/
theorem fetchRetrying_answeredBy :
    (Program.backend.fetchRetrying policy call).answeredBy store =
      store.fetchRetrying policy call := by
  simp only [fetchRetrying, Program.answeredBy_bind, Program.answeredBy_now,
    fetchAttempts_answeredBy]

end Backend

theorem Session.deliverCounted_answeredBy (s : Session) (n : Nat) :
    (s.deliverCounted Program.backend n).answeredBy store = s.deliverCounted store n := by
  simp only [deliverCounted, Program.answeredBy_bind, Program.answeredBy_record,
    Program.answeredBy_pure]

/-- A read of a session is its tree of requests, answered. -/
theorem Session.read_answeredBy (s : Session) (n : Nat) :
    (s.read Program.backend n).answeredBy store = s.read store n := by
  rw [read, read]
  by_cases hclosed : s.closed = true
  · rw [if_pos hclosed, if_pos hclosed, Program.answeredBy_pure]
  rw [if_neg hclosed, if_neg hclosed]
  by_cases hn : n = 0
  · rw [if_pos hn, if_pos hn, Program.answeredBy_pure]
  rw [if_neg hn, if_neg hn]
  cases hneed : s.settle.need with
  | overrun | ended => simp only [hneed, Program.answeredBy_pure]
  | buffered =>
    simp only [hneed]
    exact deliverCounted_answeredBy s.settle n
  | chunk i size address =>
    simp only [hneed, Program.answeredBy_bind, Backend.fetchRetrying_answeredBy]
    congr 1
    funext answer
    cases answer with
    | error e => rfl
    | ok bytes =>
      cases haccept : s.settle.accept i size bytes with
      | error e => simp only [haccept, Program.answeredBy_pure]
      | ok taken =>
        simp only [haccept]
        exact deliverCounted_answeredBy taken n

/-- A close of a session is its tree of requests, answered. -/
theorem Session.close_answeredBy (s : Session) :
    (s.close Program.backend).answeredBy store = s.close store := by
  rw [close, close]
  by_cases hclosed : s.closed = true
  · rw [if_pos hclosed, if_pos hclosed, Program.answeredBy_pure]
  rw [if_neg hclosed, if_neg hclosed]
  obtain ⟨verdict, shut⟩ := s.shut
  cases verdict with
  | ok => simp only [Bool.false_eq_true, if_false, Program.answeredBy_bind,
      Program.answeredBy_record, Program.answeredBy_pure]
  | error e => simp only [if_true, Program.answeredBy_bind, Program.answeredBy_record,
      Program.answeredBy_pure]

/-- A read of a stream is its tree of requests, answered. -/
theorem RangeStream.read_answeredBy (stream : RangeStream) (n : Nat) :
    (stream.read Program.backend n).answeredBy store = stream.read store n := by
  rw [read, read]
  by_cases hused : stream.remaining = some 0
  · rw [if_pos hused, if_pos hused, Program.answeredBy_pure]
  · rw [if_neg hused, if_neg hused, Program.answeredBy_bind, Session.read_answeredBy]
    congr 1
    funext answer
    obtain ⟨result, session⟩ := answer
    cases result <;> rfl

/-- Opening a range is its tree of requests, answered. -/
theorem Link.openRange_answeredBy (link : Link) (range : ByteRange) :
    (link.openRange Program.backend range).answeredBy store = link.openRange store range := by
  rw [openRange, openRange]
  cases hstream : link.openStream range with
  | error e => simp only [Program.answeredBy_pure]
  | ok stream =>
    simp only [Program.answeredBy_bind, Program.answeredBy_record,
      Program.answeredBy_pure]

section

variable {σ : Type} {before after : σ}

/-- Where both of two computations bring something, the first one brought what the second
one got. -/
private theorem run_bind_eq_some {ask : OptionT (StateM σ) α} {f : α → OptionT (StateM σ) β}
    {value : β} (h : ((ask >>= f).run).run before = (some value, after)) :
    ∃ answer between, ask.run.run before = (some answer, between) ∧
      ((f answer).run).run between = (some value, after) := by
  cases hask : ask.run.run before with
  | mk answer between =>
    rw [OptionT.run_bind, Option.elimM, StateT.run_bind, hask] at h
    cases answer with
    | none => cases h
    | some answer => exact ⟨answer, between, rfl, h⟩

/-- What a backend with a memory makes of a program is the result of one of its runs. -/
theorem Program.returns_of_answeredBy {memory : Backend (OptionT (StateM σ))} {p : Program α}
    {value : α} (h : (p.answeredBy memory).run.run before = (some value, after)) :
    ∃ steps, p.Returns steps value := by
  induction p generalizing before with
  | done last =>
    cases h
    exact ⟨[], .refl _⟩
  | fetch call next ih =>
    obtain ⟨answer, between, -, hrest⟩ := run_bind_eq_some h
    obtain ⟨steps, hsteps⟩ := ih answer hrest
    exact ⟨_, .cons (.fetch call next answer) hsteps⟩
  | pause ms next ih =>
    obtain ⟨elapsed, between, -, hrest⟩ := run_bind_eq_some h
    obtain ⟨steps, hsteps⟩ := ih elapsed hrest
    exact ⟨_, .cons (.pause ms next elapsed) hsteps⟩
  | now next ih =>
    obtain ⟨time, between, -, hrest⟩ := run_bind_eq_some h
    obtain ⟨steps, hsteps⟩ := ih time hrest
    exact ⟨_, .cons (.now next time) hsteps⟩
  | record event next ih =>
    obtain ⟨_, between, -, hrest⟩ := run_bind_eq_some h
    obtain ⟨steps, hsteps⟩ := ih hrest
    exact ⟨_, .cons (.record event next) hsteps⟩

/-- A scripted read is one of the runs of the read. -/
theorem RangeStream.read_returns_of_scripted {stream next : RangeStream} {n : Nat}
    {result : Except Error ByteArray} {before after : Scene}
    (h : (stream.read Scripted.backend n).run.run before = (some (result, next), after)) :
    ∃ steps, (stream.read Program.backend n).Returns steps (result, next) := by
  rw [← RangeStream.read_answeredBy] at h
  exact Program.returns_of_answeredBy h

end

end ChunkedFile
