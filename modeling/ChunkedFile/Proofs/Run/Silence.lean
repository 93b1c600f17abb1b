import ChunkedFile.Proofs.Run.Answers

/-!
# Runs with the same answers

What a store is asked, calls and waits, decides a run; what the clock shows is only counted. Over
`Program.silent` the clock stands still and nothing is counted, so that programs that ask for the
same are the same there. A program that does not look at the clock for anything but to count has,
for each of its silent runs, the runs with the same questions and answers.
-/

namespace ChunkedFile

/-- The step is a question to the store, with its answer. -/
def Step.isQuestion : Step → Bool
  | .fetch .. | .pause .. => true
  | .now _ | .record _ => false

/-- The questions of a run, with their answers. -/
def questions (steps : List Step) : List Step := steps.filter Step.isQuestion

namespace Program

variable {α β : Type} {p : Program α} {f g : α → Program β} {steps more : List Step}
  {value other : α}

/-- A step leads to one place. -/
theorem Does.unique {step : Step} {q r : Program α} (h : p.Does step q) (hother : p.Does step r) :
    q = r := by
  cases h <;> cases hother <;> rfl

/-- Runs with the same answers, those of the clock included, have the same result. -/
theorem Returns.unique (h : p.Returns steps value) (hother : p.Returns steps other) :
    value = other := by
  induction steps generalizing p with
  | nil =>
    cases h
    cases hother
    rfl
  | cons step steps ih =>
    cases h with
    | cons hstep hrest =>
      cases hother with
      | cons hstep' hrest' =>
        rw [hstep'.unique hstep] at hrest'
        exact ih hrest hrest'

/-- What follows on a program needs to be the same only for what the program returns. -/
theorem bind_congr_of_returns (h : ∀ steps value, p.Returns steps value → f value = g value) :
    p >>= f = p >>= g := by
  rw [bind_eq, bind_eq]
  induction p with
  | done value => exact h [] value (.refl _)
  | fetch call next ih =>
    simp only [andThen]
    congr
    funext answer
    exact ih answer fun steps value hreturns => h _ value (.cons (.fetch call next answer) hreturns)
  | pause ms next ih =>
    simp only [andThen]
    congr
    funext elapsed
    exact ih elapsed fun steps value hreturns => h _ value (.cons (.pause ms next elapsed) hreturns)
  | now next ih =>
    simp only [andThen]
    congr
    funext time
    exact ih time fun steps value hreturns => h _ value (.cons (.now next time) hreturns)
  | record event next ih =>
    simp only [andThen]
    congr 1
    exact ih fun steps value hreturns => h _ value (.cons (.record event next) hreturns)

/-- The backend on which the clock stands still and no event is counted. -/
def silent : Backend Program := { backend with now := pure 0, record := fun _ => pure () }

/-- A silent run is a run without what it shows of the clock and counts. -/
theorem returns_of_silent (h : (p.answeredBy silent).Returns more value) :
    ∃ steps, p.Returns steps value ∧ questions steps = more := by
  induction p generalizing more with
  | done last =>
    obtain ⟨rfl, rfl⟩ := returns_pure_iff.mp h
    exact ⟨[], .refl _, rfl⟩
  | fetch call next ih =>
    obtain ⟨_, answer, rest, hask, hrest, rfl⟩ := returns_bind_iff.mp h
    obtain rfl := returns_fetch_iff.mp hask
    obtain ⟨steps, hsteps, rfl⟩ := ih answer hrest
    exact ⟨_, .cons (.fetch call next answer) hsteps, rfl⟩
  | pause ms next ih =>
    obtain ⟨_, elapsed, rest, hask, hrest, rfl⟩ := returns_bind_iff.mp h
    obtain rfl := returns_pause_iff.mp hask
    obtain ⟨steps, hsteps, rfl⟩ := ih elapsed hrest
    exact ⟨_, .cons (.pause ms next elapsed) hsteps, rfl⟩
  | now next ih =>
    obtain ⟨steps, hsteps, rfl⟩ := ih 0 h
    exact ⟨_, .cons (.now next 0) hsteps, rfl⟩
  | record event next ih =>
    obtain ⟨steps, hsteps, rfl⟩ := ih h
    exact ⟨_, .cons (.record event next) hsteps, rfl⟩

/-- The program goes on in the same way whatever the clock shows. -/
def Timeless : Program α → Prop
  | .done _ => True
  | .fetch _ next => ∀ answer, (next answer).Timeless
  | .pause _ next => ∀ elapsed, (next elapsed).Timeless
  | .now next =>
    ∀ time, (next time).Timeless ∧ (next time).answeredBy silent = (next 0).answeredBy silent
  | .record _ next => next.Timeless

/-- A composition is timeless if its parts are. -/
theorem Timeless.bind (hp : p.Timeless) (hf : ∀ value, (f value).Timeless) :
    (p >>= f).Timeless := by
  rw [bind_eq]
  induction p with
  | done value => exact hf value
  | fetch call next ih => exact fun answer => ih answer (hp answer)
  | pause ms next ih => exact fun elapsed => ih elapsed (hp elapsed)
  | now next ih =>
    refine fun time => ⟨ih time (hp time).1, ?_⟩
    simp only [← bind_eq, answeredBy_bind, (hp time).2]
  | record event next ih => exact ih hp

/-- A run of a timeless program is a silent run that tells the time and counts. -/
theorem Timeless.silent_returns (hp : p.Timeless) (h : p.Returns steps value) :
    (p.answeredBy silent).Returns (questions steps) value := by
  induction p generalizing steps with
  | done last =>
    obtain ⟨rfl, hdone⟩ := reaches_done_iff.mp h
    cases hdone
    exact .refl _
  | fetch call next ih =>
    cases h with
    | @cons _ step _ rest _ hstep hrest =>
      cases hstep with
      | fetch _ _ answer =>
        refine returns_bind_iff.mpr ⟨[.fetch call answer], answer, questions rest, ?_, ?_, rfl⟩
        · exact returns_fetch_iff.mpr rfl
        · exact ih answer (hp answer) hrest
  | pause ms next ih =>
    cases h with
    | @cons _ step _ rest _ hstep hrest =>
      cases hstep with
      | pause _ _ elapsed =>
        refine returns_bind_iff.mpr ⟨[.pause ms elapsed], elapsed, questions rest, ?_, ?_, rfl⟩
        · exact returns_pause_iff.mpr rfl
        · exact ih elapsed (hp elapsed) hrest
  | now next ih =>
    cases h with
    | cons hstep hrest =>
      cases hstep with
      | now _ time =>
        -- the time told makes no difference, so the silent run may be told another
        have hsilent := ih time (hp time).1 hrest
        rw [(hp time).2] at hsilent
        exact hsilent
  | record event next ih =>
    cases h with
    | cons hstep hrest =>
      cases hstep
      have hsilent := ih hp hrest
      exact hsilent

end Program

namespace Backend

variable {started attempt attempts : Nat} {call : Call} {e : Error} {policy : RetryPolicy}

theorem giveUp_timeless : (Program.backend.giveUp call attempts e).Timeless := trivial

/-- Nothing but a count depends on when a fetch began. -/
theorem fetchAttempts_silent :
    Program.silent.fetchAttempts policy call started attempt =
      Program.silent.fetchAttempts policy call 0 attempt := by
  induction attempt using fetchAttempts.induct policy with
  | case1 attempt ih =>
    rw [fetchAttempts]
    conv => rhs; rw [fetchAttempts]
    congr 1
    funext answer
    split
    · rfl
    · rfl
    · split
      · rename_i e _ hretries
        simp only [ih e hretries]
      · rfl

/-- Attempts do not depend on the clock. -/
theorem fetchAttempts_timeless :
    (Program.backend.fetchAttempts policy call started attempt).Timeless := by
  induction attempt using fetchAttempts.induct policy with
  | case1 attempt ih =>
    rw [fetchAttempts]
    refine Program.Timeless.bind (fun _ => trivial) fun answer => ?_
    split
    · exact fun time => ⟨trivial, rfl⟩
    · exact trivial
    · rename_i e _
      by_cases hretries : policy.retries attempt e
      · rw [dif_pos hretries]
        intro elapsed
        cases elapsed with
        | false => exact trivial
        | true => exact ih e hretries
      · rw [dif_neg hretries]
        exact giveUp_timeless

/-- A fetch does not depend on the clock. -/
theorem fetchRetrying_timeless : (Program.backend.fetchRetrying policy call).Timeless := by
  refine fun time => ⟨fetchAttempts_timeless, ?_⟩
  show ((Program.backend.fetchAttempts _ call time 1).answeredBy Program.silent) =
    (Program.backend.fetchAttempts _ call 0 1).answeredBy Program.silent
  rw [fetchAttempts_answeredBy, fetchAttempts_answeredBy, fetchAttempts_silent]

end Backend

/-- A read of a session does not look at the clock but to count. -/
theorem Session.read_timeless (s : Session) (n : Nat) : (s.read Program.backend n).Timeless := by
  have hdeliver (t : Session) : (t.deliverCounted Program.backend n).Timeless := trivial
  rw [read]
  split
  · exact trivial
  split
  · exact trivial
  cases hneed : s.settle.need with
  | overrun | ended => simp only [hneed]; exact trivial
  | buffered => simp only [hneed]; exact hdeliver _
  | chunk i size address =>
    simp only [hneed]
    refine Backend.fetchRetrying_timeless.bind fun answer => ?_
    cases answer with
    | error e => exact trivial
    | ok bytes =>
      cases haccept : s.settle.accept i size bytes with
      | error e => simp only [haccept]; exact trivial
      | ok taken => simp only [haccept]; exact hdeliver taken

namespace RangeStream

variable {stream : RangeStream} {n size fuel : Nat}

/-- A read of a stream does not depend on the clock. -/
theorem read_timeless : (stream.read Program.backend n).Timeless := by
  rw [read]
  split
  · exact trivial
  · refine (Session.read_timeless _ _).bind fun answer => ?_
    obtain ⟨result, session⟩ := answer
    cases result <;> exact trivial

theorem blocksFrom_timeless : (stream.blocksFrom Program.backend size fuel).Timeless := by
  induction fuel generalizing stream with
  | zero => exact trivial
  | succ fuel ih =>
    rw [blocksFrom]
    refine read_timeless.bind fun answer => ?_
    obtain ⟨result, next⟩ := answer
    cases result with
    | error e => exact trivial
    | ok block =>
      simp only
      split
      · exact trivial
      · exact ih.bind fun _ => trivial

/-- Reading a stream to its end does not look at the clock but to count. -/
theorem readToEnd_timeless : (stream.readToEnd Program.backend).Timeless :=
  blocksFrom_timeless.bind fun _ => trivial

variable {m : Type → Type} [Monad m] [LawfulMonad m] {store : Backend m}

/-- Reads in blocks, answered by a store, are those on that store. -/
theorem blocksFrom_answeredBy : (stream.blocksFrom Program.backend size fuel).answeredBy store =
    stream.blocksFrom store size fuel := by
  induction fuel generalizing stream with
  | zero => rfl
  | succ fuel ih =>
    rw [blocksFrom, blocksFrom, Program.answeredBy_bind, read_answeredBy]
    congr 1
    funext answer
    obtain ⟨result, next⟩ := answer
    cases result with
    | error e => rfl
    | ok block =>
      simp only
      split
      · rfl
      · simp only [Program.answeredBy_bind, ih, Program.answeredBy_pure]

/-- The rest of a stream is its tree of requests, answered. -/
theorem readToEnd_answeredBy :
    (stream.readToEnd Program.backend).answeredBy store = stream.readToEnd store := by
  simp only [readToEnd, Program.answeredBy_bind, blocksFrom_answeredBy, Program.answeredBy_pure]

end RangeStream

end ChunkedFile
