import ChunkedFile.Proofs.Run.Answers
import ChunkedFile.Proofs.Run.Events
import ChunkedFile.Proofs.Run.Interruption

/-!
# Scripted runs in time

A program that is answered from a script runs on the clock of its scene, and its timeline tells when
each of its steps is over. `proceeds` says once what a program does next, and what becomes of that
where a cancellation is due later. From it follows how a cancellation bears on a whole run: one that
is due after the end changes nothing, and any other cuts the run off in the wait that it meets, with
nothing done but what the run would have done until then.
-/

namespace ChunkedFile

variable {α β : Type} {scene begun : Scene} {time ms : Nat}

namespace Scene

/-- The scene with a cancellation that is due at a time. -/
def due (scene : Scene) (time : Nat) : Scene := { scene with cancelAt := some time }

/-- The scene in which a wait has been cut off by the cancellation at a time. -/
def cutOff (scene : Scene) (time : Nat) : Scene :=
  { scene with clock := time, cancelAt := some time, cancelled := true }

/-- The scene after so many milliseconds. -/
def later (scene : Scene) (ms : Nat) : Scene := { scene with clock := scene.clock + ms }

/-- The scene in which a call has reached the store. -/
def reached (scene : Scene) (call : Call) : Scene :=
  { scene with
    script := (scene.script.next call.address).2
    calls := scene.calls.push (scene.clock, call) }

theorem script_due (scene : Scene) (time : Nat) : (scene.due time).script = scene.script := rfl

theorem reached_due (scene : Scene) (call : Call) (time : Nat) :
    (scene.due time).reached call = (scene.reached call).due time := rfl

theorem isCancelledBefore_idle (hidle : scene.cancelAt = none) :
    scene.isCancelledBefore time = false := by
  rw [isCancelledBefore, hidle]

/-- A cancellation that is due comes before all later times. -/
theorem isCancelledBefore_due (scene : Scene) (due : Nat) :
    (scene.due due).isCancelledBefore time = decide (due < time) := rfl

end Scene

namespace Scripted

/-- What a scripted computation comes to: its result, where there is one, and the scene that it
leaves. -/
def play (run : Scripted α) (scene : Scene) : Option α × Scene := run.run.run scene

theorem play_pure (value : α) (scene : Scene) :
    (pure value : Scripted α).play scene = (some value, scene) := rfl

/-- Of two runs the second one begins where the first one ends, if it does. -/
theorem play_bind (run : Scripted α) (f : α → Scripted β) (scene : Scene) :
    (run >>= f).play scene =
      match run.play scene with
      | (some value, after) => (f value).play after
      | (none, after) => (none, after) := by
  cases hrun : run.play scene with
  | mk result after =>
    change run.run.run scene = (result, after) at hrun
    rw [play, OptionT.run_bind, Option.elimM, StateT.run_bind, hrun]
    cases result <;> rfl

theorem play_get_bind (f : Scene → Scripted β) (scene : Scene) :
    (get >>= f).play scene = (f scene).play scene := rfl

theorem play_set_bind (next : Scene) (f : PUnit → Scripted β) (scene : Scene) :
    (set next >>= f).play scene = (f ⟨⟩).play next := rfl

/-- Without a cancellation the wait for it never ends. -/
theorem play_awaitCancellation_idle (hidle : scene.cancelAt = none) :
    awaitCancellation.play scene = (none, scene) := by
  rw [awaitCancellation, play_get_bind, hidle]
  rfl

/-- The wait for a cancellation that is due ends with it. -/
theorem play_awaitCancellation_due (hbefore : scene.clock ≤ time) :
    awaitCancellation.play (scene.due time) = (some (), scene.cutOff time) := by
  rw [awaitCancellation, play_get_bind]
  simp only [Scene.due, Nat.max_eq_right hbefore]
  rfl

/-- Without a cancellation a pause is over after its time. -/
theorem play_pause_idle (hidle : scene.cancelAt = none) (ms : Nat) :
    (pause ms).play scene = (some true, scene.later ms) := by
  rw [pause, play_get_bind, Scene.isCancelledBefore_idle hidle]
  rfl

/-- So it is where the cancellation is due no earlier. -/
theorem play_pause_over (h : scene.clock + ms ≤ time) :
    (pause ms).play (scene.due time) = (some true, (scene.later ms).due time) := by
  have hover : ¬ time < (scene.due time).clock + ms := Nat.not_lt.mpr h
  rw [pause, play_get_bind, Scene.isCancelledBefore_due, decide_eq_false hover]
  rfl

/-- A cancellation that is due earlier cuts a pause off. -/
theorem play_pause_cutOff (hbefore : scene.clock ≤ time) (h : time < scene.clock + ms) :
    (pause ms).play (scene.due time) = (some false, scene.cutOff time) := by
  have hcut : time < (scene.due time).clock + ms := h
  rw [pause, play_get_bind, Scene.isCancelledBefore_due, decide_eq_true hcut, if_pos rfl, play_bind,
    play_awaitCancellation_due hbefore]
  rfl

/-- A call that is made at the time of the cancellation does not reach the store. -/
theorem play_fetch_unreached (scene : Scene) (call : Call) :
    (fetch call).play (scene.due scene.clock) =
      (some (.error .cancelled), scene.cutOff scene.clock) := by
  have hcut : scene.clock < (scene.due scene.clock).clock + 1 := Nat.lt_succ_self _
  rw [fetch, play_get_bind, Scene.isCancelledBefore_due, decide_eq_true hcut, if_pos rfl, play_bind,
    play_awaitCancellation_due (Nat.le_refl _)]
  rfl

section Fetch

variable {call : Call} (h : scene.isCancelledBefore (scene.clock + 1) = false)

include h

/-- A call that reaches the store and is never answered. -/
theorem play_fetch_hang (houtcome : (scene.script.next call.address).1.outcome = .hang) :
    (fetch call).play scene =
      (awaitCancellation >>= fun _ => pure (.error .cancelled)).play (scene.reached call) := by
  rw [fetch, play_get_bind, h, if_neg Bool.false_ne_true]
  cases hnext : scene.script.next call.address with
  | mk reply script =>
    rw [hnext] at houtcome
    change reply.outcome = _ at houtcome
    simp only [Scene.reached, hnext, play_set_bind, houtcome]

/-- A call that reaches the store and is answered after a while. -/
theorem play_fetch_answer {result : Except Error ByteArray}
    (houtcome : (scene.script.next call.address).1.outcome = .answer result) :
    (fetch call).play scene =
      (pause (scene.script.next call.address).1.delay >>= fun elapsed =>
        pure (if elapsed then result else .error .cancelled)).play (scene.reached call) := by
  rw [fetch, play_get_bind, h, if_neg Bool.false_ne_true]
  cases hnext : scene.script.next call.address with
  | mk reply script =>
    rw [hnext] at houtcome
    change reply.outcome = _ at houtcome
    simp only [Scene.reached, hnext, play_set_bind, houtcome]

end Fetch

/-- How a wait goes that has begun: it has no end, or it ends after some time with an answer. A
cancellation that is due before the end cuts it off. -/
inductive Waits (wait : Scripted α) (cancelled : α) (scene begun : Scene) : Prop
  | hangs (hplay : wait.play scene = (none, begun))
      (hcut : ∀ time, scene.clock < time →
        wait.play (scene.due time) = (some cancelled, begun.cutOff time))
  | answers (ms : Nat) (answer : α) (hplay : wait.play scene = (some answer, begun.later ms))
      (hover : ∀ time, scene.clock < time → scene.clock + ms ≤ time →
        wait.play (scene.due time) = (some answer, (begun.later ms).due time))
      (hcut : ∀ time, scene.clock < time → time < scene.clock + ms →
        wait.play (scene.due time) = (some cancelled, begun.cutOff time))

/-- A pause waits for its time. -/
theorem pause_waits (hidle : scene.cancelAt = none) (ms : Nat) :
    Waits (pause ms) false scene scene :=
  .answers ms true (play_pause_idle hidle ms) (fun _ _ hover => play_pause_over hover)
    fun _ hbefore hcut => play_pause_cutOff (Nat.le_of_lt hbefore) hcut

/-- A call waits for the answer that the script has for it. -/
theorem fetch_waits (hidle : scene.cancelAt = none) (call : Call) :
    Waits (fetch call) (.error .cancelled) scene (scene.reached call) := by
  have hwhole : scene.isCancelledBefore (scene.clock + 1) = false :=
    Scene.isCancelledBefore_idle hidle
  have hdue : ∀ time, scene.clock < time →
      (scene.due time).isCancelledBefore ((scene.due time).clock + 1) = false :=
    fun time hbefore => decide_eq_false (Nat.not_lt.mpr hbefore)
  have hreached : (scene.reached call).cancelAt = none := hidle
  have hclock : (scene.reached call).clock = scene.clock := rfl
  cases houtcome : (scene.script.next call.address).1.outcome with
  | hang =>
    refine .hangs ?_ fun time hbefore => ?_
    · rw [play_fetch_hang hwhole houtcome, play_bind, play_awaitCancellation_idle hreached]
    · rw [← hclock] at hbefore
      rw [play_fetch_hang (hdue time hbefore) houtcome, play_bind, Scene.reached_due,
        play_awaitCancellation_due (Nat.le_of_lt hbefore)]
      rfl
  | answer result =>
    refine .answers (scene.script.next call.address).1.delay result ?_ ?_ ?_
    · rw [play_fetch_answer hwhole houtcome, play_bind, play_pause_idle hreached]
      rfl
    · intro time hbefore hover
      rw [← hclock] at hover
      rw [play_fetch_answer (hdue time hbefore) houtcome, play_bind, Scene.reached_due,
        Scene.script_due, play_pause_over hover]
      rfl
    · intro time hbefore hcut
      rw [← hclock] at hbefore hcut
      rw [play_fetch_answer (hdue time hbefore) houtcome, play_bind, Scene.reached_due,
        Scene.script_due, play_pause_cutOff (Nat.le_of_lt hbefore) hcut]
      rfl

end Scripted

/-- The scene in which a step has begun: no time has passed, and what call was made was made now. -/
structure Scene.Begins (scene begun : Scene) : Prop where
  clock : begun.clock = scene.clock
  idle : begun.cancelAt = none
  cancelled : begun.cancelled = scene.cancelled
  calls : ∃ made, begun.calls = scene.calls ++ made ∧ ∀ call ∈ made, call.1 = scene.clock

/-- The step is a call or a pause. -/
def Step.isWait : Step → Bool
  | .fetch .. | .pause .. => true
  | .now _ | .record _ => false

/-- Nothing is recorded in a wait. -/
theorem events_of_isWait {step : Step} (h : step.isWait = true) : events [step] = [] := by
  cases step with
  | fetch | pause => rfl
  | now | record => cases h

namespace Program

variable {p q : Program α} {a : α} {step : Step}

/-- What a program comes to that is answered from the script of a scene. -/
def played (p : Program α) (scene : Scene) : Option α × Scene :=
  (p.answeredBy Scripted.backend).play scene

/-- The steps of a program that is answered from the script of a scene, each with the time at which
it is over. A call that is never answered is none of them. -/
def timeline : Program α → Scene → List (Nat × Step)
  | .done _, _ => []
  | .fetch call next, scene =>
    match (Scripted.fetch call).play scene with
    | (some answer, after) => (after.clock, .fetch call answer) :: (next answer).timeline after
    | (none, _) => []
  | .pause ms next, scene =>
    match (Scripted.pause ms).play scene with
    | (some elapsed, after) => (after.clock, .pause ms elapsed) :: (next elapsed).timeline after
    | (none, _) => []
  | .now next, scene =>
    let nanos := scene.clock * 1000000
    (scene.clock, .now nanos) :: (next nanos).timeline scene
  | .record event next, scene =>
    (scene.clock, .record event) ::
      next.timeline { scene with metrics := scene.metrics.record event }

theorem played_done (value : α) (scene : Scene) :
    (Program.done value).played scene = (some value, scene) := rfl

/-- The clock of the scene is read in milliseconds and told in nanoseconds. -/
theorem played_now (next : Nat → Program α) (scene : Scene) :
    (Program.now next).played scene = (next (scene.clock * 1000000)).played scene := by
  have hnow : Scripted.backend.now.play scene = (some (scene.clock * 1000000), scene) := by
    rw [Scripted.backend, Scripted.play_get_bind]
    exact Scripted.play_pure _ scene
  rw [played, answeredBy, Scripted.play_bind, hnow]
  exact rfl

/-- An event is recorded in the scene. -/
theorem played_record (event : Event) (next : Program α) (scene : Scene) :
    (Program.record event next).played scene =
      next.played { scene with metrics := scene.metrics.record event } := by
  rw [played, answeredBy, Scripted.play_bind]
  exact rfl

/-- The first step of a program is a wait if the program waits. -/
theorem Does.isWait (h : p.Does step q) : step.isWait = p.waits := by
  cases h <;> rfl

/-- The program begins with a wait and goes on with its answer. -/
structure Awaits (p : Program α) (wait : Scripted β) (cancelled : β) (ask : β → Step)
    (next : β → Program α) : Prop where
  does : ∀ value, p.Does (ask value) (next value)
  waits : p.waits = true
  cancels : ∀ a, p.CancelsTo a → next cancelled = .done a
  played_some : ∀ {scene after value}, wait.play scene = (some value, after) →
    p.played scene = (next value).played after
  played_none : ∀ {scene after}, wait.play scene = (none, after) → p.played scene = (none, after)
  timeline_some : ∀ {scene after value}, wait.play scene = (some value, after) →
    p.timeline scene = (after.clock, ask value) :: (next value).timeline after
  timeline_none : ∀ {scene after}, wait.play scene = (none, after) → p.timeline scene = []

/-- A program that begins with a call waits for its answer. -/
theorem awaits_fetch (call : Call) (next : Except Error ByteArray → Program α) :
    (Program.fetch call next).Awaits (Scripted.fetch call) (.error .cancelled) (.fetch call)
      next where
  does := .fetch call next
  waits := rfl
  cancels _ h := h.1
  played_some h := by
    rw [played, answeredBy, Scripted.play_bind, Scripted.backend, h]
    rfl
  played_none h := by rw [played, answeredBy, Scripted.play_bind, Scripted.backend, h]
  timeline_some h := by rw [timeline, h]
  timeline_none h := by rw [timeline, h]

/-- A program that begins with a pause waits for its end. -/
theorem awaits_pause (ms : Nat) (next : Bool → Program α) :
    (Program.pause ms next).Awaits (Scripted.pause ms) false (.pause ms) next where
  does := .pause ms next
  waits := rfl
  cancels _ h := h.1
  played_some h := by
    rw [played, answeredBy, Scripted.play_bind, Scripted.backend, h]
    rfl
  played_none h := by rw [played, answeredBy, Scripted.play_bind, Scripted.backend, h]
  timeline_some h := by rw [timeline, h]
  timeline_none h := by rw [timeline, h]

/-- All that a program does next in a scene without a cancellation, and what one comes to that is
due later. Only waits take time, and only they can be cut off. -/
inductive Proceeds (p : Program α) (scene : Scene) : Prop
  | done (value : α) (h : p = .done value)
  | hangs (begun : Scene) (hbegins : scene.Begins begun) (hmetrics : begun.metrics = scene.metrics)
      (hplayed : p.played scene = (none, begun)) (htimeline : p.timeline scene = [])
      (hcut : ∀ time, scene.clock < time → ∀ a, p.CancelsTo a →
        p.waits = true ∧ p.played (scene.due time) = (some a, begun.cutOff time))
  | moves (begun : Scene) (ms : Nat) (step : Step) (next : Program α)
      (hquiet : p.waits = true ∨ ms = 0) (hbegins : scene.Begins begun)
      (hmetrics : begun.metrics = scene.metrics.after [step])
      (hdoes : p.Does step next) (hplayed : p.played scene = next.played (begun.later ms))
      (htimeline : p.timeline scene = (scene.clock + ms, step) :: next.timeline (begun.later ms))
      (hover : ∀ time, scene.clock < time → scene.clock + ms ≤ time →
        p.played (scene.due time) = next.played ((begun.later ms).due time))
      (hcut : ∀ time, scene.clock < time → time < scene.clock + ms → ∀ a, p.CancelsTo a →
        p.waits = true ∧ p.played (scene.due time) = (some a, begun.cutOff time))

/-- A program that waits proceeds. -/
theorem Awaits.proceeds {wait : Scripted β} {cancelled : β} {ask : β → Step}
    {next : β → Program α} (h : p.Awaits wait cancelled ask next)
    (hwait : Scripted.Waits wait cancelled scene begun) (hbegins : scene.Begins begun)
    (hmetrics : begun.metrics = scene.metrics) : p.Proceeds scene := by
  have hcutOff : ∀ time, wait.play (scene.due time) = (some cancelled, begun.cutOff time) →
      ∀ a, p.CancelsTo a →
        p.waits = true ∧ p.played (scene.due time) = (some a, begun.cutOff time) := by
    intro time hplay a ha
    refine ⟨h.waits, ?_⟩
    rw [h.played_some hplay, h.cancels a ha, played_done]
  cases hwait with
  | hangs hplay hcut =>
    exact .hangs begun hbegins hmetrics (h.played_none hplay) (h.timeline_none hplay)
      fun time hbefore => hcutOff time (hcut time hbefore)
  | answers ms answer hplay hover hcut =>
    refine .moves begun ms (ask answer) (next answer) (Or.inl h.waits) hbegins ?_ (h.does answer)
      (h.played_some hplay) ?_ (fun time hbefore hend => h.played_some (hover time hbefore hend))
      fun time hbefore hend => hcutOff time (hcut time hbefore hend)
    · rw [hmetrics, Metrics.after, events_of_isWait ((h.does answer).isWait.trans h.waits)]
      rfl
    · rw [h.timeline_some hplay, Scene.later, hbegins.clock]

/-- Every program proceeds, from any scene without a cancellation. -/
theorem proceeds (p : Program α) (hidle : scene.cancelAt = none) : p.Proceeds scene := by
  have hsame : scene.Begins scene := ⟨rfl, hidle, rfl, #[], by simp, by simp⟩
  cases p with
  | done value => exact .done value rfl
  | fetch call next =>
    have hbegins : scene.Begins (scene.reached call) :=
      ⟨rfl, hidle, rfl, #[(scene.clock, call)], Array.push_eq_append, by simp⟩
    exact (awaits_fetch call next).proceeds (Scripted.fetch_waits hidle call) hbegins rfl
  | pause ms next =>
    exact (awaits_pause ms next).proceeds (Scripted.pause_waits hidle ms) hsame rfl
  | now next =>
    refine .moves scene 0 (.now (scene.clock * 1000000)) (next (scene.clock * 1000000))
      (Or.inr rfl) hsame rfl (.now next _) (played_now next scene) rfl
      (fun time _ _ => played_now next _) fun time hbefore hcut => ?_
    omega
  | record event next =>
    refine .moves { scene with metrics := scene.metrics.record event } 0 (.record event) next
      (Or.inr rfl) ⟨rfl, hidle, rfl, #[], by simp, by simp⟩ rfl (.record event next)
      (played_record event next scene) rfl (fun time _ _ => played_record event next _)
      fun time hbefore hcut => ?_
    omega

/-- What holds of a program whenever it holds of all that it may go on with holds of every
program. -/
theorem induction_of_does {P : Program α → Prop}
    (h : ∀ p, (∀ step q, p.Does step q → P q) → P p) (p : Program α) : P p := by
  induction p with
  | done value =>
    refine h _ fun step q hdoes => ?_
    cases hdoes
  | fetch call next ih =>
    refine h _ fun step q hdoes => ?_
    cases hdoes with
    | fetch _ _ answer => exact ih answer
  | pause ms next ih =>
    refine h _ fun step q hdoes => ?_
    cases hdoes with
    | pause _ _ elapsed => exact ih elapsed
  | now next ih =>
    refine h _ fun step q hdoes => ?_
    cases hdoes with
    | now _ time => exact ih time
  | record event next ih =>
    refine h _ fun step q hdoes => ?_
    cases hdoes with
    | record => exact ih

end Program

/-- What a run without a cancellation makes of a scene: time goes on, and calls are added. -/
structure Scene.Continues (scene after : Scene) : Prop where
  idle : after.cancelAt = none
  cancelled : after.cancelled = scene.cancelled
  clock : scene.clock ≤ after.clock
  calls : ∃ made, after.calls = scene.calls ++ made ∧ ∀ call ∈ made, scene.clock ≤ call.1

/-- A scene that continues another one continues all that came before. -/
theorem Scene.Continues.trans {between after : Scene} (h : scene.Continues between)
    (hafter : between.Continues after) : scene.Continues after := by
  obtain ⟨first, hfirst, hfirstAt⟩ := h.calls
  obtain ⟨second, hsecond, hsecondAt⟩ := hafter.calls
  refine ⟨hafter.idle, hafter.cancelled.trans h.cancelled, Nat.le_trans h.clock hafter.clock,
    first ++ second, ?_, fun call hcall => ?_⟩
  · rw [hsecond, hfirst, Array.append_assoc]
  · rcases Array.mem_append.mp hcall with hcall | hcall
    · exact hfirstAt call hcall
    · exact Nat.le_trans h.clock (hsecondAt call hcall)

/-- After its wait a scene continues the one before it. -/
theorem Scene.Begins.continues (h : scene.Begins begun) (ms : Nat) :
    scene.Continues (begun.later ms) := by
  obtain ⟨made, hmade, hat⟩ := h.calls
  refine ⟨h.idle, h.cancelled, ?_, made, hmade, fun call hcall => ?_⟩
  · rw [Scene.later, h.clock]
    exact Nat.le_add_right _ _
  · exact Nat.le_of_eq (hat call hcall).symm

/-- The steps of a timeline that are over before a time. -/
def stepsBefore (time : Nat) (timeline : List (Nat × Step)) : List Step :=
  (timeline.filter (·.1 < time)).map Prod.snd

/-- A moment before the time is one of the steps before it. -/
theorem stepsBefore_cons {moment : Nat × Step} {timeline : List (Nat × Step)}
    (h : moment.1 < time) :
    stepsBefore time (moment :: timeline) = moment.2 :: stepsBefore time timeline := by
  rw [stepsBefore, List.filter_cons_of_pos (by simpa using h)]
  rfl

/-- Where all moments are no earlier, there are no steps before the time. -/
theorem stepsBefore_eq_nil {timeline : List (Nat × Step)}
    (h : ∀ moment ∈ timeline, time ≤ moment.1) : stepsBefore time timeline = [] := by
  rw [stepsBefore, List.map_eq_nil_iff, List.filter_eq_nil_iff]
  intro moment hmoment
  simpa using h moment hmoment

namespace Program

variable {p q : Program α} {a : α} {step : Step}

/-- A played program continues its scene. -/
theorem continues_played (p : Program α) (hidle : scene.cancelAt = none) :
    scene.Continues (p.played scene).2 := by
  induction p using induction_of_does generalizing scene with
  | h p ih =>
    cases p.proceeds hidle with
    | done value h =>
      rw [h, played_done]
      exact ⟨hidle, rfl, Nat.le_refl _, #[], by simp, by simp⟩
    | hangs begun hbegins _ hplayed =>
      rw [hplayed]
      exact hbegins.continues 0
    | moves begun ms step next _ hbegins _ hdoes hplayed =>
      rw [hplayed]
      exact (hbegins.continues ms).trans (ih step next hdoes hbegins.idle)

/-- Nothing on a timeline is over before the run has begun. -/
theorem le_of_mem_timeline (hidle : scene.cancelAt = none) {moment : Nat × Step}
    (h : moment ∈ p.timeline scene) : scene.clock ≤ moment.1 := by
  induction p using induction_of_does generalizing scene with
  | h p ih =>
    cases p.proceeds hidle with
    | done value hdone =>
      rw [hdone] at h
      cases h
    | hangs begun _ _ _ htimeline =>
      rw [htimeline] at h
      cases h
    | moves begun ms step next _ hbegins _ hdoes _ htimeline =>
      rw [htimeline] at h
      rcases List.mem_cons.mp h with rfl | h
      · exact Nat.le_add_right _ _
      · exact Nat.le_trans (hbegins.continues ms).clock (ih step next hdoes hbegins.idle h)

/-- What a program cancels to does not change from step to step. -/
theorem CancelsTo.of_does (h : p.CancelsTo a) (hdoes : p.Does step q) : q.CancelsTo a :=
  h.of_reaches (.cons hdoes (.refl q))

/-- A cancellation that is due at a time cuts a run off, which would not be over before: the run
ends in the wait that it is in, and up to there it is what it would have been. -/
structure CutOff (p : Program α) (scene : Scene) (time : Nat) (a : α) : Prop where
  late : ∀ value, (p.played scene).1 = some value → time ≤ (p.played scene).2.clock
  path : ∃ q, p.Reaches (stepsBefore time (p.timeline scene)) q ∧ q.waits = true
  cut : ∃ (last : Scene) (made : Array (Nat × Call)),
    p.played (scene.due time) = (some a, last.cutOff time) ∧
    (p.played scene).2.calls = scene.calls ++ made ∧
    last.calls = scene.calls ++ made.filter (·.1 < time) ∧
    last.metrics = scene.metrics.after (stepsBefore time (p.timeline scene))

/-- Calls that are made now are made before any later time. -/
theorem filter_of_begun {made : Array (Nat × Call)} (hat : ∀ call ∈ made, call.1 = scene.clock)
    (hbefore : scene.clock < time) : made.filter (·.1 < time) = made := by
  rw [Array.filter_eq_self]
  intro call hcall
  simpa [hat call hcall] using hbefore

/-- A run is cut off in its first step where that is not over before the cancellation. -/
theorem CutOff.of_first (hbegins : scene.Begins begun) (hmetrics : begun.metrics = scene.metrics)
    (hbefore : scene.clock < time) (hwaits : p.waits = true)
    (hdue : p.played (scene.due time) = (some a, begun.cutOff time))
    (hlate : ∀ value, (p.played scene).1 = some value → time ≤ (p.played scene).2.clock)
    (hcalls : ∃ rest, (p.played scene).2.calls = begun.calls ++ rest ∧
      ∀ call ∈ rest, time ≤ call.1)
    (htimeline : ∀ moment ∈ p.timeline scene, time ≤ moment.1) : p.CutOff scene time a := by
  obtain ⟨made, hmade, hat⟩ := hbegins.calls
  obtain ⟨rest, hrest, hrestAt⟩ := hcalls
  have hnone := stepsBefore_eq_nil htimeline
  have hdropped : rest.filter (·.1 < time) = #[] := by
    rw [Array.filter_eq_empty_iff]
    intro call hcall
    simpa using hrestAt call hcall
  refine ⟨hlate, ⟨p, ?_, hwaits⟩, begun, made ++ rest, hdue, ?_, ?_, ?_⟩
  · rw [hnone]
    exact .refl p
  · rw [hrest, hmade, Array.append_assoc]
  · rw [Array.filter_append Array.size_append, filter_of_begun hat hbefore, hdropped, hmade,
      Array.append_empty]
  · rw [hnone, hmetrics]
    rfl

/-- A run is cut off after a first step that is over before the cancellation. -/
theorem CutOff.of_next (hbegins : scene.Begins begun)
    (hmetrics : begun.metrics = scene.metrics.after [step]) (hdoes : p.Does step q)
    (hplayed : p.played scene = q.played (begun.later ms))
    (htimeline : p.timeline scene = (scene.clock + ms, step) :: q.timeline (begun.later ms))
    (hdue : p.played (scene.due time) = q.played ((begun.later ms).due time))
    (hover : scene.clock + ms < time) (h : q.CutOff (begun.later ms) time a) :
    p.CutOff scene time a := by
  obtain ⟨made, hmade, hat⟩ := hbegins.calls
  obtain ⟨hlate, ⟨r, hreaches, hwaits⟩, last, rest, hcut, hcalls, hlast, hcounted⟩ := h
  have hsteps : stepsBefore time (p.timeline scene) =
      [step] ++ stepsBefore time (q.timeline (begun.later ms)) := by
    rw [htimeline, stepsBefore_cons hover]
    rfl
  have hbefore : scene.clock < time := Nat.lt_of_le_of_lt (Nat.le_add_right _ _) hover
  refine ⟨?_, ⟨r, ?_, hwaits⟩, last, made ++ rest, hdue.trans hcut, ?_, ?_, ?_⟩
  · rw [hplayed]
    exact hlate
  · rw [hsteps]
    exact .cons hdoes hreaches
  · rw [hplayed, hcalls, ← Array.append_assoc, ← hmade]
    rfl
  · rw [hlast, Array.filter_append Array.size_append, filter_of_begun hat hbefore,
      ← Array.append_assoc, ← hmade]
    rfl
  · rw [hcounted, hsteps, Metrics.after_append, ← hmetrics]
    rfl

/-- A run that is over before the time at which a cancellation is due goes as it would without it,
and any other is cut off, as long as no wait of the run is over just then. -/
theorem spared_or_cutOff (hcancels : p.CancelsTo a) (hidle : scene.cancelAt = none)
    (hbefore : scene.clock < time)
    (hfree : ∀ moment ∈ p.timeline scene, moment.2.isWait = true → moment.1 ≠ time) :
    (∃ value after, p.played scene = (some value, after) ∧ after.clock < time ∧
      p.played (scene.due time) = (some value, after.due time)) ∨ p.CutOff scene time a := by
  -- by the steps that the program does: the scene moves on with them, and the clock stays before
  -- the time until one of them is cut off
  induction p using induction_of_does generalizing scene with
  | h p ih =>
    cases p.proceeds hidle with
    | done value h =>
      subst h
      exact Or.inl ⟨value, scene, rfl, hbefore, rfl⟩
    | hangs begun hbegins hmetrics hplayed htimeline hcut =>
      obtain ⟨hwaits, hdue⟩ := hcut time hbefore a hcancels
      refine Or.inr (.of_first hbegins hmetrics hbefore hwaits hdue ?_ ⟨#[], ?_, by simp⟩ ?_)
      · simp [hplayed]
      · rw [hplayed, Array.append_empty]
      · simp [htimeline]
    | moves begun ms step next hquiet hbegins hmetrics hdoes hplayed htimeline hover hcut =>
      have hidle' : (begun.later ms).cancelAt = none := hbegins.idle
      have hclock : (begun.later ms).clock = scene.clock + ms := by
        rw [Scene.later, hbegins.clock]
      have hwhole : ∀ moment ∈ p.timeline scene, scene.clock + ms ≤ moment.1 := by
        intro moment hmoment
        rw [htimeline] at hmoment
        rcases List.mem_cons.mp hmoment with rfl | hmoment
        · exact Nat.le_refl _
        · exact hclock ▸ le_of_mem_timeline hidle' hmoment
      by_cases hlate : time < scene.clock + ms
      · -- the step itself is cut off, and all that would follow comes later
        obtain ⟨hwaits, hdue⟩ := hcut time hbefore hlate a hcancels
        have hnext := next.continues_played hidle'
        obtain ⟨rest, hrest, hrestAt⟩ := hnext.calls
        have hsilent : begun.metrics = scene.metrics := by
          rw [hmetrics, Metrics.after, events_of_isWait (hdoes.isWait.trans hwaits)]
          rfl
        refine Or.inr (.of_first hbegins hsilent hbefore hwaits hdue ?_ ⟨rest, ?_, ?_⟩ ?_)
        · have hend := hnext.clock
          rw [hplayed]
          omega
        · rw [hplayed, hrest]
          rfl
        · intro call hcall
          have hcallAt := hrestAt call hcall
          omega
        · exact fun moment hmoment => Nat.le_trans (Nat.le_of_lt hlate) (hwhole moment hmoment)
      · have hne : scene.clock + ms ≠ time := by
          rcases hquiet with hwaits | hnow
          · refine hfree (scene.clock + ms, step) ?_ (hdoes.isWait.trans hwaits)
            rw [htimeline]
            exact List.mem_cons_self
          · omega
        have hend : scene.clock + ms < time := by omega
        have hdue := hover time hbefore (Nat.le_of_lt hend)
        have hfree' : ∀ moment ∈ next.timeline (begun.later ms), moment.2.isWait = true →
            moment.1 ≠ time := by
          intro moment hmoment
          refine hfree moment ?_
          rw [htimeline]
          exact List.mem_cons_of_mem _ hmoment
        rcases ih step next hdoes (hcancels.of_does hdoes) hidle' (hclock ▸ hend) hfree' with
          ⟨value, after, hvalue, hafter, hsame⟩ | hnext
        · exact Or.inl ⟨value, after, hplayed.trans hvalue, hafter, hdue.trans hsame⟩
        · exact Or.inr (.of_next hbegins hmetrics hdoes hplayed htimeline hdue hend hnext)

end Program

end ChunkedFile
