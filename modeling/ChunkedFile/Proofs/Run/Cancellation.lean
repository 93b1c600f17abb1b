import ChunkedFile.Proofs.Run.Timeline

/-!
# Fetches that are cancelled

A scripted fetch with a cancellation that is due at a time, compared with the same fetch without it.
A fetch that would be over by then is not changed. Any other ends at that very time, with the calls
and the retries that it would have made until then, and counts neither a chunk nor a failure.
-/

namespace ChunkedFile

variable {α : Type} {scene : Scene} {call : Call} {steps : List Step} {policy : RetryPolicy}
  {started attempt time : Nat}

/-- The step is an attempt that failed. -/
def Step.isFailed : Step → Bool
  | .fetch _ (.error _) => true
  | _ => false

/-- The attempts of a timeline that failed before a time. -/
def failedBefore (time : Nat) (timeline : List (Nat × Step)) : Nat :=
  timeline.countP fun moment => moment.1 < time && moment.2.isFailed

/-- The failed calls before a time are counted in the timeline. -/
theorem countP_stepsBefore (time : Nat) (timeline : List (Nat × Step)) :
    (stepsBefore time timeline).countP Step.isFailed = failedBefore time timeline := by
  rw [stepsBefore, List.countP_map, List.countP_filter, failedBefore]
  congr 1
  funext moment
  exact Bool.and_comm _ _

/-- Before the first moment no call has failed. -/
theorem failedBefore_eq_zero {timeline : List (Nat × Step)}
    (h : ∀ moment ∈ timeline, time ≤ moment.1) : failedBefore time timeline = 0 := by
  rw [← countP_stepsBefore, stepsBefore_eq_nil h]
  rfl

/-- Attempts take at least one step. -/
theorem Attempts.ne_nil {answer : Except Error ByteArray}
    (h : Attempts policy call started attempt steps answer) : steps ≠ [] := by
  cases h <;> exact List.cons_ne_nil _ _

/-- Attempts that end in a cancellation count a retry for each failure before their last step. -/
theorem Attempts.events_of_cancelled
    (h : Attempts policy call started attempt steps (.error .cancelled)) :
    events steps = List.replicate (steps.dropLast.countP Step.isFailed) .fetchRetried := by
  generalize hanswer : (.error .cancelled : Except Error ByteArray) = answer at h
  induction h with
  | arrived => cases hanswer
  | gaveUp => cases hanswer
  | cancelled | interrupted => rfl
  | retried attempt e rest answer hretries hrest ih =>
    rw [List.dropLast_cons_of_ne_nil (List.cons_ne_nil _ _),
      List.dropLast_cons_of_ne_nil (List.cons_ne_nil _ _),
      List.dropLast_cons_of_ne_nil hrest.ne_nil]
    change .fetchRetried :: events rest = _
    rw [ih hanswer, List.countP_cons_of_pos rfl, List.countP_cons_of_neg Bool.false_ne_true,
      List.countP_cons_of_neg Bool.false_ne_true]
    rfl

/-- A fetch that is cut off in a wait has counted a retry for each failure. -/
theorem Backend.events_of_reaches {q : Program (Except Error ByteArray)}
    (hreaches : (Program.backend.fetchRetrying policy call).Reaches steps q)
    (hwaits : q.waits = true) :
    events steps = List.replicate (steps.countP Step.isFailed) .fetchRetried := by
  obtain ⟨last, hlast, hreturns⟩ := fetchRetrying_cancelsTo.returns_of_waits hreaches hwaits
  obtain ⟨started, rest, heq, hattempts⟩ := fetchRetrying_returns hreturns
  have hcounted := hattempts.events_of_cancelled
  have hsilent : events [last] = [] := by
    cases last with
    | fetch | pause => rfl
    | now | record => exact hlast.elim
  have hsteps : steps = .now started :: rest.dropLast := by
    have hinit := congrArg List.dropLast heq
    rw [List.dropLast_concat, List.dropLast_cons_of_ne_nil hattempts.ne_nil] at hinit
    exact hinit
  have hevents : events steps = events rest := by
    rw [← List.append_nil (events steps), ← hsilent, ← events_append, heq]
    rfl
  rw [hevents, hcounted, hsteps]
  rfl

/-- Retries add to their own counter only. -/
theorem Metrics.after_retries (metrics : Metrics) (n : Nat)
    (h : events steps = List.replicate n .fetchRetried) :
    metrics.after steps =
      { metrics with fetchRetries := metrics.fetchRetries + UInt64.ofNat n } := by
  rw [after, h]
  clear h
  induction n generalizing metrics with
  | zero => simp
  | succ n ih =>
    rw [List.replicate_succ, List.foldl_cons, ih]
    simp only [record, Metrics.mk.injEq, true_and, and_true]
    rw [UInt64.ofNat_add, UInt64.add_assoc, UInt64.add_comm 1]
    rfl

namespace Scripted

/-- The cancellation of a run is taken back once the run is over, unless it came. -/
private theorem play_cancellingAfter (hidle : scene.cancelAt = none) {run : Scripted α} {ms : Nat}
    {value : α} {after : Scene}
    (h : run.play (scene.due (scene.clock + ms)) = (some value, after)) :
    (cancellingAfter ms run).play scene =
      (some value,
        { after with cancelAt := if after.cancelled then after.cancelAt else none }) := by
  have hdue : scene.cancelAt.elim (scene.clock + ms) (min (scene.clock + ms)) =
      scene.clock + ms := by
    rw [hidle]
    rfl
  rw [cancellingAfter, play_get_bind]
  change (do
    set (scene.due (scene.cancelAt.elim (scene.clock + ms) (min (scene.clock + ms))))
    let result ← run
    modify fun after : Scene =>
      { after with cancelAt := if after.cancelled then after.cancelAt else scene.cancelAt }
    return result : Scripted α).play scene = _
  rw [play_set_bind, hdue, play_bind, h, hidle]
  rfl

/-- A cancellation that a run has not met by its end never fires. -/
theorem play_cancellingAfter_spared (hidle : scene.cancelAt = none) {run : Scripted α} {ms : Nat}
    {value : α} {after : Scene} (hafter : after.cancelAt = none) (hunmet : after.cancelled = false)
    (h : run.play (scene.due (scene.clock + ms)) = (some value, after.due time)) :
    (cancellingAfter ms run).play scene = (some value, after) := by
  have hnever : ¬ (after.due time).cancelled = true := by
    rw [Bool.not_eq_true]
    exact hunmet
  rw [play_cancellingAfter hidle h, if_neg hnever, ← hafter]
  rfl

/-- The cancellation that cut a run off stays. -/
theorem play_cancellingAfter_cutOff (hidle : scene.cancelAt = none) {run : Scripted α} {ms : Nat}
    {value : α} {last : Scene}
    (h : run.play (scene.due (scene.clock + ms)) = (some value, last.cutOff time)) :
    (cancellingAfter ms run).play scene = (some value, last.cutOff time) :=
  play_cancellingAfter hidle h

end Scripted

/-- A fetch that is cancelled beforehand makes no call and counts nothing. -/
theorem Backend.fetchRetrying_played_due (policy : RetryPolicy) (call : Call) (scene : Scene) :
    (Program.backend.fetchRetrying policy call).played (scene.due scene.clock) =
      (some (.error .cancelled), scene.cutOff scene.clock) := by
  have hnow : Program.backend.fetchRetrying policy call = .now fun started =>
    Program.backend.fetchAttempts policy call started 1 := rfl
  rw [hnow, Program.played_now, fetchAttempts]
  exact (Program.awaits_fetch call _).played_some (Scripted.play_fetch_unreached scene call)

/-- A scripted fetch with a cancellation that is due so many milliseconds after its beginning, and
not just when a call or a pause of the fetch is over. Where the fetch would be over by then, it goes
as it would without the cancellation. Otherwise it ends in a cancellation at that time: its calls
are those that the fetch begins before, and it counts a retry for each attempt that failed before,
and nothing else. -/
theorem Scripted.fetchRetrying_cancelled (policy : RetryPolicy) (call : Call) (script : Script)
    (time : Nat)
    (hfree : 0 < time →
      ∀ moment ∈ (Program.backend.fetchRetrying policy call).timeline { script },
        moment.2.isWait = true → moment.1 ≠ time) :
    let fetch := Scripted.backend.fetchRetrying policy call
    let whole := fetch.play { script }
    let cut := (cancellingAfter time fetch).play { script }
    let timeline := (Program.backend.fetchRetrying policy call).timeline { script }
    (whole.1.isSome ∧ whole.2.clock < time → cut = whole) ∧
    (¬ (whole.1.isSome ∧ whole.2.clock < time) →
      cut.1 = some (.error .cancelled) ∧ cut.2.clock = time ∧
      cut.2.calls = whole.2.calls.filter (·.1 < time) ∧
      cut.2.metrics = { fetchRetries := UInt64.ofNat (failedBefore time timeline) }) := by
  intro fetch whole cut timeline
  have hidle : ({ script } : Scene).cancelAt = none := rfl
  have hwhole : whole = (Program.backend.fetchRetrying policy call).played { script } := by
    rw [Program.played, Backend.fetchRetrying_answeredBy]
  have hcontinues := (Program.backend.fetchRetrying policy call).continues_played hidle
  have hplay : ∀ {value after},
      (Program.backend.fetchRetrying policy call).played (({ script } : Scene).due time) =
        (some value, after) →
      fetch.play (({ script } : Scene).due (0 + time)) = (some value, after) := by
    intro value after h
    rw [← h, Nat.zero_add, Program.played, Backend.fetchRetrying_answeredBy]
  -- a cancellation at the very beginning is not a cut of the run, since no wait has begun by then
  rcases Nat.eq_zero_or_pos time with rfl | hpos
  · have hcut : cut = (some (.error .cancelled), ({ script } : Scene).cutOff 0) :=
      play_cancellingAfter_cutOff hidle
        (hplay (Backend.fetchRetrying_played_due policy call { script }))
    have hnone : failedBefore 0 timeline = 0 := failedBefore_eq_zero fun _ _ => Nat.zero_le _
    refine ⟨fun h => absurd h.2 (Nat.not_lt_zero _), fun _ => ?_⟩
    rw [hcut, hnone]
    refine ⟨rfl, rfl, ?_, rfl⟩
    exact (Array.filter_eq_empty_iff.mpr (by simp)).symm
  · rcases Program.spared_or_cutOff Backend.fetchRetrying_cancelsTo hidle hpos (hfree hpos) with
      ⟨value, after, hvalue, hafter, hsame⟩ |
        ⟨hlate, ⟨q, hreaches, hwaits⟩, last, made, hdue, hcalls, hlast, hcounted⟩
    · rw [hvalue] at hcontinues
      have hcut : cut = (some value, after) :=
        play_cancellingAfter_spared hidle hcontinues.idle hcontinues.cancelled (hplay hsame)
      rw [hwhole, hvalue]
      exact ⟨fun _ => hcut, fun h => absurd ⟨rfl, hafter⟩ h⟩
    · have hcut : cut = (some (.error .cancelled), last.cutOff time) :=
        play_cancellingAfter_cutOff hidle (hplay hdue)
      have hretries := Backend.events_of_reaches hreaches hwaits
      rw [countP_stepsBefore] at hretries
      refine ⟨?_, fun _ => ?_⟩
      · rintro ⟨hsome, hover⟩
        obtain ⟨value, hvalue⟩ := Option.isSome_iff_exists.mp hsome
        rw [hwhole] at hvalue hover
        exact absurd (hlate value hvalue) (Nat.not_le.mpr hover)
      · rw [hcut, hwhole, hcalls]
        refine ⟨rfl, rfl, ?_, ?_⟩
        · rw [Array.empty_append]
          exact hlast.trans (Array.empty_append ..)
        · have hmetrics := hcounted.trans (Metrics.after_retries _ _ hretries)
          change last.metrics = _
          rw [hmetrics, UInt64.zero_add]

/-- A store whose first answer is a fault and whose second one takes its time. -/
def slowScript : Script :=
  [("a", [⟨5, .answer (.error (.badStatus 503 "s"))⟩, ⟨20, .answer (.ok ⟨#[7]⟩)⟩])]

/-- The whole fetch takes 35 milliseconds. -/
def slowTimeline : List (Nat × Step) :=
  [(0, .now 0), (5, .fetch ⟨"a", false⟩ (.error (.badStatus 503 "s"))), (5, .record .fetchRetried),
    (15, .pause 10 true), (35, .fetch ⟨"a", false⟩ (.ok ⟨#[7]⟩)), (35, .now 35000000),
    (35, .record (.chunkFetched 1 35000000))]

/-- A cancellation after 20 milliseconds cuts off the second attempt. -/
theorem fetchRetrying_cancelled_secondAttempt :
    let fetch := Scripted.backend.fetchRetrying ⟨3, 10⟩ ⟨"a", false⟩
    let cut := (Scripted.cancellingAfter 20 fetch).play { script := slowScript }
    (Program.backend.fetchRetrying ⟨3, 10⟩ ⟨"a", false⟩).timeline { script := slowScript } =
      slowTimeline ∧
    (∀ moment ∈ slowTimeline, moment.2.isWait = true → moment.1 ≠ 20) ∧
    cut.1 = some (.error .cancelled) ∧ cut.2.clock = 20 ∧
    cut.2.calls = #[(0, ⟨"a", false⟩), (15, ⟨"a", false⟩)] ∧
    cut.2.metrics = { fetchRetries := 1 } := by
  have htimeline : (Program.backend.fetchRetrying ⟨3, 10⟩ ⟨"a", false⟩).timeline
      { script := slowScript } = slowTimeline := by with_unfolding_all rfl
  have hfree : ∀ moment ∈ slowTimeline, moment.2.isWait = true → moment.1 ≠ 20 := by
    simp [slowTimeline]
  have hclock : ((Scripted.backend.fetchRetrying ⟨3, 10⟩ ⟨"a", false⟩).play
      { script := slowScript }).2.clock = 35 := by with_unfolding_all rfl
  have hcalls : ((Scripted.backend.fetchRetrying ⟨3, 10⟩ ⟨"a", false⟩).play
      { script := slowScript }).2.calls = #[(0, ⟨"a", false⟩), (15, ⟨"a", false⟩)] := by
    with_unfolding_all rfl
  have hfailed : failedBefore 20 slowTimeline = 1 := rfl
  obtain ⟨-, hcutOff⟩ := Scripted.fetchRetrying_cancelled ⟨3, 10⟩ ⟨"a", false⟩ slowScript 20
    fun _ => htimeline ▸ hfree
  simp only [hclock, hcalls, htimeline, hfailed] at hcutOff
  obtain ⟨hresult, htime, hmade, hcounted⟩ := hcutOff (by simp)
  exact ⟨htimeline, hfree, hresult, htime, hmade, hcounted⟩

end ChunkedFile
