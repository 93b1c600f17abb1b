import ChunkedFile.Proofs.Session.Lifecycle
import ChunkedFile.Proofs.Session.Sharing
import ChunkedFile.Proofs.Stream.Delivery

/-!
# Calls at the same time

Whatever the order in which calls on one session come, wait, go on and are dropped, they come out as
if they had been made one after the other. So no byte is handed out twice or lost between them, and
nothing is handed out after a close.
-/

namespace ChunkedFile

/-- A cancelled wait is no answer of the store. -/
theorem Step.IsCancelled.honest {step : Step} {payload : String → ByteArray}
    (h : step.IsCancelled) : step.Honest payload := by
  cases step with
  | fetch call answer =>
    cases answer with
    | ok bytes => exact h.elim
    | error e => exact trivial
  | pause | now | record => exact trivial

namespace Session

variable {s t first : Session} {op : Operation} {steps : List Step} {answer : Answer}
  {turns : List Turn} {file : ByteArray} {payload : String → ByteArray}

/-- A call counts what it brought. -/
theorem advanced_of_perform (h : (s.perform Program.backend op).Returns steps (answer, t)) :
    t.table = s.table ∧ t.start = s.start ∧ t.delivered = s.delivered + answer.bytes.size := by
  cases op with
  | read n =>
    obtain ⟨result, rfl, hread⟩ := perform_read_returns h
    exact ⟨hread.advanced.table, hread.advanced.start, hread.advanced.delivered⟩
  | close =>
    obtain ⟨verdict, rfl, hclose⟩ := perform_close_returns h
    cases hclose with
    | again | first => exact ⟨rfl, rfl, rfl⟩

/-- A history counts what its calls brought. -/
theorem Turns.advanced (h : first.Turns turns t) : t.table = first.table ∧ t.start = first.start ∧
    t.delivered = first.delivered + (joined (turns.map (·.answer.bytes))).size := by
  induction h with
  | nil => exact ⟨rfl, rfl, rfl⟩
  | snoc before call ih =>
    obtain ⟨htable, hstart, hdelivered⟩ := ih
    obtain ⟨htable', hstart', hdelivered'⟩ := advanced_of_perform call
    refine ⟨htable'.trans htable, hstart'.trans hstart, ?_⟩
    rw [hdelivered', hdelivered]
    simp [ByteArray.size_append, Nat.add_assoc]

/-- A call on a session that shows its file brings the next part of it, or nothing. -/
theorem shows_of_perform (hstands : s.closed = false → s.Stands)
    (hholds : s.table.Holds payload file) (hshows : s.closed = false → s.Shows file)
    (hhonest : ∀ step ∈ steps, step.Honest payload)
    (h : (s.perform Program.backend op).Returns steps (answer, t)) :
    (t.closed = false → t.Shows file) ∧ answer.bytes =
      file.extract (s.start + s.delivered) (s.start + s.delivered + answer.bytes.size) := by
  have hnone : ByteArray.empty = file.extract (s.start + s.delivered)
      (s.start + s.delivered + ByteArray.empty.size) := by
    rw [ByteArray.size_empty, Nat.add_zero, ByteArray.extract_same]
  cases hclosed : s.closed with
  | true =>
    rw [perform_of_closed Program.backend hclosed, Program.returns_pure_iff, Prod.mk.injEq] at h
    obtain ⟨-, rfl, rfl⟩ := h
    refine ⟨fun hopen => ?_, ?_⟩
    · simp [hclosed] at hopen
    · cases op <;> exact hnone
  | false =>
    cases op with
    | read n =>
      obtain ⟨result, rfl, hread⟩ := perform_read_returns h
      obtain ⟨hnext, hbytes⟩ := hread.shows (hstands hclosed) hholds (hshows hclosed) hhonest
      exact ⟨fun _ => hnext, hbytes⟩
    | close =>
      have hshut := (closed_of_perform h).mpr (Or.inr rfl)
      obtain ⟨verdict, rfl, -⟩ := perform_close_returns h
      refine ⟨fun hopen => ?_, hnone⟩
      simp [hshut] at hopen

/-- A new session hands out the bytes of its file from its start, in order and each one once. -/
theorem Turns.shows (h : first.Turns turns t) (hfresh : first.Fresh)
    (hholds : first.table.Holds payload file)
    (hhonest : ∀ turn ∈ turns, ∀ step ∈ turn.steps, step.Honest payload) :
    (t.closed = false → t.Shows file) ∧
      joined (turns.map (·.answer.bytes)) = file.extract first.start (t.start + t.delivered) := by
  induction h with
  | nil =>
    rw [Shows, hfresh.window, Window.size_empty, Nat.add_zero, ByteArray.extract_same,
      hfresh.delivered, Nat.add_zero, ByteArray.extract_same]
    exact ⟨fun _ => rfl, rfl⟩
  | @snoc turns s t op steps answer before call ih =>
    obtain ⟨hshows, hbrought⟩ := ih fun turn hmem => hhonest turn (List.mem_append_left _ hmem)
    obtain ⟨htable, hstart, -⟩ := before.advanced
    obtain ⟨-, hstart', hdelivered'⟩ := advanced_of_perform call
    have hsteps : ∀ step ∈ steps, step.Honest payload :=
      hhonest _ (List.mem_append_right _ (List.mem_singleton_self _))
    obtain ⟨hnext, hbytes⟩ := shows_of_perform (before.stands hfresh.stands)
      (by rw [htable]; exact hholds) hshows hsteps call
    have hsplit : file.extract first.start (s.start + s.delivered + answer.bytes.size) =
        file.extract first.start (s.start + s.delivered) ++ answer.bytes := by
      rw [ByteArray.extract_eq_extract_append_extract (s.start + s.delivered) (by omega) (by omega),
        ← hbytes]
    refine ⟨hnext, ?_⟩
    rw [List.map_append, joined_append, hbrought, hstart', hdelivered', ← Nat.add_assoc, hsplit]
    simp

/-- A call that fails in reading leaves the session alike. -/
theorem alike_of_perform {e : Error}
    (h : (s.perform Program.backend op).Returns steps (.read (.error e), t)) : t.Alike s := by
  cases op with
  | close =>
    obtain ⟨_, hanswer, -⟩ := perform_close_returns h
    cases hanswer
  | read n =>
    obtain ⟨result, hanswer, hread⟩ := perform_read_returns h
    rw [Answer.read.injEq] at hanswer
    cases hclosed : s.closed with
    | true =>
      have hsame : t = s := (onClosed hclosed h).2.2
      rw [hsame, Alike]
    | false =>
      rw [← hanswer] at hread
      rw [hread.eq_settle_of_error hclosed]
      exact s.alike_settle

end Session

namespace Shared

variable {s t : Session} {c : Shared} {moves : List Move} {served : List (Nat × Turn)}
  {i : Nat} {turn : Turn} {payload : String → ByteArray}

/-- A store that was honest to all calls was honest in every turn. -/
theorem Serialised.honest (h : Serialised s moves c served t)
    (hhonest : ∀ step ∈ allSteps moves, step.Honest payload) (hmem : (i, turn) ∈ served) :
    ∀ step ∈ turn.steps, step.Honest payload := by
  have hmade : ∀ step ∈ stepsOf moves i, step.Honest payload := by
    intro step hstep
    refine hhonest step ?_
    rw [h.steps]
    exact List.mem_flatMap.mpr ⟨i, h.mem_grants hmem, hstep⟩
  cases h.outcomes i turn hmem with
  | returned hcall hsteps =>
    rw [hsteps]
    exact hmade
  | dropped hcall hanswer last hlast hsteps =>
    rw [hsteps]
    intro step hstep
    rcases List.mem_append.mp hstep with hstep | hstep
    · exact hmade step hstep
    · rw [List.mem_singleton.mp hstep]
      exact hlast.honest

/-- Calls on one session, however they overlap and wherever they are dropped, come out as if they
had been made one after the other in the order in which they were granted the lock, a dropped one as
a read that is cancelled: one at a time asks the store, those that fail change nothing that a later
call could notice, those after a close bring nothing, and what all of them bring is the file from
the start of the session, in order and each byte once. -/
theorem Runs.one_at_a_time (hruns : Runs s moves c) (hbuilt : s.Built) :
    ∃ served t, Serialised s moves c served t ∧
      (∀ i j op op' p q, c.calls i = some (op, .holding p) → c.calls j = some (op', .holding q) →
        i = j) ∧
      (∀ before i turn rest, served = before ++ (i, turn) :: rest →
        ∃ u, s.Turns (before.map Prod.snd) u ∧
          (∀ e, turn.answer = .read (.error e) → turn.after.Alike u) ∧
          ((∃ earlier ∈ before, earlier.2.operation = .close) → turn.OnClosed u)) ∧
      t.start = s.start ∧
      t.delivered = (joined (served.map fun call => call.2.answer.bytes)).size ∧
      ∀ payload file, s.table.Holds payload file →
        (∀ step ∈ allSteps moves, step.Honest payload) →
        joined (served.map fun call => call.2.answer.bytes) =
          file.extract s.start (s.start + t.delivered) := by
  obtain ⟨served, t, h⟩ := hruns.serialised
  have hfresh := hbuilt.fresh
  obtain ⟨-, hstart, hdelivered⟩ := h.turns.advanced
  have hbytes : (served.map Prod.snd).map (·.answer.bytes) =
      served.map fun call => call.2.answer.bytes := List.map_map
  rw [hfresh.delivered, Nat.zero_add, hbytes] at hdelivered
  refine ⟨served, t, h, ?_, ?_, hstart, hdelivered, ?_⟩
  · intro i j op op' p q hi hj
    exact Option.some.inj ((h.alone i op p hi).symm.trans (h.alone j op' q hj))
  · rintro before i turn rest rfl
    have hturns := h.turns
    rw [List.map_append, List.map_cons] at hturns
    obtain ⟨u, hbefore, hcall⟩ := hturns.of_append
    refine ⟨u, hbefore, ?_, ?_⟩
    · intro e hanswer
      rw [hanswer] at hcall
      exact Session.alike_of_perform hcall
    · rintro ⟨earlier, hmem, hclose⟩
      have hclosed := (hbefore.closed_iff hfresh.isOpen).mpr
        ⟨earlier.2, List.mem_map_of_mem hmem, hclose⟩
      exact Session.onClosed hclosed hcall
  · intro payload file hholds hhonest
    have hturn : ∀ turn ∈ served.map Prod.snd, ∀ step ∈ turn.steps, step.Honest payload := by
      intro turn hmem
      obtain ⟨⟨i, turn⟩, hserved, rfl⟩ := List.mem_map.mp hmem
      exact h.honest hhonest hserved
    -- the calls that were served are a history of one session, which hands out the file in order
    obtain ⟨-, hbrought⟩ := h.turns.shows hfresh hholds hturn
    rw [← hbytes, hbrought, hstart]

end Shared

/-- Four reads and a close on the session of one byte. The first read is dropped in its fetch and
another one before it begins; the close comes before the read that brings the byte, but is granted
the lock after it. -/
def oneByteMoves : List Move :=
  [.call 0 (.read 5), .call 1 .close, .grant 0, .work 0 (.now 0), .call 2 (.read 5),
    .call 3 (.read 5), .call 4 (.read 1), .drop 4, .drop 0, .grant 2, .work 2 (.now 1),
    .work 2 (.fetch ⟨"a", false⟩ (.ok ⟨#[97]⟩)), .work 2 (.now 2),
    .work 2 (.record (.chunkFetched 1 1)), .work 2 (.record (.bytesDelivered 1)), .finish 2,
    .grant 1, .work 1 (.record .sessionClosed), .finish 1, .grant 3, .finish 3]

/-- The table of the one byte holds it. -/
theorem oneByte_holds : oneByte.table.Holds (fun _ => ⟨#[97]⟩) ⟨#[97]⟩ := by
  have hlists : oneByte.table.Lists { chunks := [⟨"a", 1⟩] } := ⟨rfl, rfl⟩
  have hstored : ({ chunks := [⟨"a", 1⟩] } : Plan).StoredIn fun _ => ⟨#[97]⟩ := by decide
  have hcontent : ({ chunks := [⟨"a", 1⟩] } : Plan).content (fun _ => ⟨#[97]⟩) = ⟨#[97]⟩ := rfl
  rw [← hcontent]
  exact hlists.holds hstored

/-- The run goes like a history in which the byte is brought once. -/
theorem one_at_a_time_oneByte :
    oneByte.Built ∧ ∃ c, Shared.Runs oneByte oneByteMoves c ∧
      c.calls 2 = some (.read 5, .returned (.read (.ok ⟨#[97]⟩))) ∧
      c.calls 3 = some (.read 5, .returned (.read (.error .sessionClosed))) ∧
      ∃ served t, Shared.Serialised oneByte oneByteMoves c served t ∧ c.session = t ∧
        served.map Prod.fst = [0, 2, 1, 3] ∧
        joined (served.map fun call => call.2.answer.bytes) =
          ByteArray.extract ⟨#[97]⟩ 0 (0 + t.delivered) := by
  have hrun : (Shared.follow { session := oneByte } oneByteMoves).map
      (fun c => (c.holder, c.calls 2, c.calls 3)) =
        some (none, some (.read 5, .returned (.read (.ok ⟨#[97]⟩))),
          some (.read 5, .returned (.read (.error .sessionClosed)))) := by
    with_unfolding_all rfl
  obtain ⟨c, hc, hcalls⟩ := Option.map_eq_some_iff.mp hrun
  rw [Prod.mk.injEq, Prod.mk.injEq] at hcalls
  obtain ⟨hfree, hread, hrefused⟩ := hcalls
  have hruns := Shared.runs_of_follow hc
  obtain ⟨served, t, h, -, -, -, -, hbytes⟩ := hruns.one_at_a_time oneByte_built
  have horder : grants oneByteMoves = [0, 2, 1, 3] := rfl
  rw [h.order, hfree, Option.toList_none, List.append_nil] at horder
  have hsteps : allSteps oneByteMoves = [.now 0, .now 1, .fetch ⟨"a", false⟩ (.ok ⟨#[97]⟩), .now 2,
      .record (.chunkFetched 1 1), .record (.bytesDelivered 1), .record .sessionClosed] := rfl
  have hhonest : ∀ step ∈ allSteps oneByteMoves, step.Honest fun _ => ⟨#[97]⟩ := by
    rw [hsteps]
    simp [Step.Honest]
  exact ⟨oneByte_built, c, hruns, hread, hrefused, served, t, h, h.free hfree, horder,
    hbytes _ _ oneByte_holds hhonest⟩

end ChunkedFile
