import Mathlib.Logic.Function.Basic
import ChunkedFile.Proofs.Run.Interruption
import ChunkedFile.Proofs.Session.Alike

/-!
# A session that is shared

Any number of calls may be on their way on one session. Each waits for the session's lock, works
while it holds the lock, and gives it back when it returns or is dropped; in which order they are
granted the lock, when each goes on and where it is dropped is left open. A call changes the session
when it was granted the lock and comes to its first wait, and again when it returns.

`Serialised` compares such a run with a history of the same calls, one after the other in the order
of the grants. It holds at the beginning and is kept by everything that can happen.
-/

namespace ChunkedFile

/-- What a call has made of the session by the time of its first wait. -/
def Operation.enter : Operation → Session → Session
  | .read n, s => if s.closed ∨ n = 0 then s else s.settle
  | .close, s => s

namespace Session

variable {s t : Session} {op : Operation} {steps : List Step} {answer : Answer}

/-- A call goes the same way from what it has made of the session. -/
theorem perform_enter {m : Type → Type} [Monad m] (backend : Backend m) (op : Operation)
    (s : Session) : (op.enter s).perform backend op = s.perform backend op := by
  cases op with
  | close => rfl
  | read n =>
    rw [Operation.enter]
    split
    · rfl
    · rename_i hwaits
      rw [not_or, Bool.not_eq_true] at hwaits
      simp only [perform, s.alike_settle.read_eq backend hwaits.1 hwaits.2]

/-- A read that is cancelled in a wait leaves the session as it had made it. -/
theorem read_cancelsTo {n : Nat} : (s.read Program.backend n).CancelsTo
    (.error .cancelled, (Operation.read n).enter s) := by
  rw [read, Operation.enter]
  by_cases hclosed : s.closed = true
  · rw [if_pos hclosed]
    exact trivial
  rw [if_neg hclosed]
  by_cases hn : n = 0
  · rw [if_pos hn]
    exact trivial
  rw [if_neg hn, if_neg (by simp [hclosed, hn])]
  cases hneed : s.settle.need with
  | overrun | ended | buffered =>
    simp only [hneed]
    exact trivial
  | chunk i size address =>
    simp only [hneed]
    refine Backend.fetchRetrying_cancelsTo.bind rfl fun reply => ?_
    cases reply with
    | error e => exact trivial
    | ok bytes =>
      cases haccept : s.settle.accept i size bytes with
      | error e => simp only [haccept]; exact trivial
      | ok taken => simp only [haccept]; exact trivial

/-- A call that is cancelled in a wait is a read; no close waits. -/
theorem perform_cancelsTo :
    (s.perform Program.backend op).CancelsTo (.read (.error .cancelled), op.enter s) := by
  cases op with
  | read n => exact read_cancelsTo.bind rfl fun _ => trivial
  | close =>
    rw [perform, close]
    by_cases hclosed : s.closed = true
    · rw [if_pos hclosed]
      exact trivial
    · rw [if_neg hclosed]
      cases hshut : s.shut with
      | mk verdict shut =>
        cases verdict <;> exact trivial

end Session

/-- How far a call is. -/
inductive Phase where
  /-- It waits for the lock. -/
  | waiting
  /-- It holds the lock and has this much left to do. -/
  | holding (rest : Program (Answer × Session))
  | returned (answer : Answer)
  /-- Its caller has given it up. -/
  | dropped

/-- The call has returned or was dropped. -/
def Phase.IsOver : Phase → Prop
  | .returned _ | .dropped => True
  | .waiting | .holding _ => False

/-- A session with the calls that were made on it, each under a number of its own. -/
structure Shared where
  /-- The session behind the lock. -/
  session : Session
  /-- The call that holds the lock. -/
  holder : Option Nat := none
  calls : Nat → Option (Operation × Phase) := fun _ => none

/-- What can happen to a shared session. -/
inductive Move where
  /-- A call is made. -/
  | call (i : Nat) (op : Operation)
  /-- A call is granted the lock. -/
  | grant (i : Nat)
  /-- The call that holds the lock goes on by one step. -/
  | work (i : Nat) (step : Step)
  /-- A call returns and gives the lock back. -/
  | finish (i : Nat)
  /-- A call is dropped by its caller, and with it the lock if it holds it. -/
  | drop (i : Nat)

namespace Move

/-- The call that is granted the lock. -/
def granted? : Move → Option Nat
  | .grant i => some i
  | _ => none

/-- The step that is made, whichever call makes it. -/
def step? : Move → Option Step
  | .work _ step => some step
  | _ => none

/-- The step that a given call makes. -/
def stepOf? (i : Nat) : Move → Option Step
  | .work j step => if j = i then some step else none
  | _ => none

end Move

/-- The calls that were granted the lock, in this order. -/
def grants (moves : List Move) : List Nat := moves.filterMap Move.granted?

/-- All steps that were made, in their order. -/
def allSteps (moves : List Move) : List Step := moves.filterMap Move.step?

/-- The steps that a call made. -/
def stepsOf (moves : List Move) (i : Nat) : List Step := moves.filterMap (Move.stepOf? i)

@[simp] theorem grants_append (moves : List Move) (move : Move) :
    grants (moves ++ [move]) = grants moves ++ move.granted?.toList :=
  filterMap_append_singleton _ moves move

@[simp] theorem allSteps_append (moves : List Move) (move : Move) :
    allSteps (moves ++ [move]) = allSteps moves ++ move.step?.toList :=
  filterMap_append_singleton _ moves move

@[simp] theorem stepsOf_append (moves : List Move) (move : Move) (i : Nat) :
    stepsOf (moves ++ [move]) i = stepsOf moves i ++ (move.stepOf? i).toList :=
  filterMap_append_singleton _ moves move

/-- Something that is neither a grant nor a step of a call. -/
def Move.IsQuiet : Move → Prop
  | .call .. | .finish _ | .drop _ => True
  | .grant _ | .work .. => False

/-- A quiet move grants nothing and takes no step. -/
theorem Move.IsQuiet.same {move : Move} (h : move.IsQuiet) (moves : List Move) :
    grants (moves ++ [move]) = grants moves ∧ allSteps (moves ++ [move]) = allSteps moves ∧
      stepsOf (moves ++ [move]) = stepsOf moves := by
  cases move with
  | call | finish | drop =>
    exact ⟨by simp [granted?], by simp [step?], funext fun i => by simp [stepOf?]⟩
  | grant | work => exact h.elim

namespace Shared

variable {s t : Session} {c d : Shared} {i j : Nat} {op : Operation} {phase : Phase}
  {move : Move} {moves : List Move} {served : List (Nat × Turn)} {turn : Turn}

/-- The shared session when a call has come this far. -/
def put (c : Shared) (i : Nat) (op : Operation) (phase : Phase) : Shared :=
  { c with calls := Function.update c.calls i (some (op, phase)) }

@[simp] theorem put_holder : (c.put i op phase).holder = c.holder := rfl

@[simp] theorem put_self : (c.put i op phase).calls i = some (op, phase) :=
  Function.update_self ..

/-- Other calls stay as they are. -/
theorem put_of_ne (h : j ≠ i) : (c.put i op phase).calls j = c.calls j :=
  Function.update_of_ne h ..

/-- How far a call is, when one has come further: it is that one, or is where it was. -/
theorem of_put {op' : Operation} {phase' : Phase}
    (h : (c.put i op phase).calls j = some (op', phase')) :
    (j = i ∧ phase' = phase) ∨ (j ≠ i ∧ c.calls j = some (op', phase')) := by
  by_cases hji : j = i
  · rw [hji, put_self, Option.some.injEq, Prod.mk.injEq] at h
    exact Or.inl ⟨hji, h.2.symm⟩
  · exact Or.inr ⟨hji, (put_of_ne hji).symm.trans h⟩

/-- What can happen next, and what comes of it. A call that holds the lock can be dropped only while
it waits; then what it has made of the session stays. -/
inductive Makes (c : Shared) : Move → Shared → Prop
  | call (i : Nat) (op : Operation) (hnew : c.calls i = none) :
      c.Makes (.call i op) (c.put i op .waiting)
  | grant (i : Nat) (op : Operation) (hcall : c.calls i = some (op, .waiting))
      (hfree : c.holder = none) :
      c.Makes (.grant i)
        { c.put i op (.holding ((op.enter c.session).perform Program.backend op)) with
          session := op.enter c.session, holder := some i }
  | work (i : Nat) (op : Operation) (p step q) (hcall : c.calls i = some (op, .holding p))
      (hdoes : p.Does step q) :
      c.Makes (.work i step) (c.put i op (.holding q))
  | finish (i : Nat) (op : Operation) (answer t)
      (hcall : c.calls i = some (op, .holding (.done (answer, t)))) :
      c.Makes (.finish i) { c.put i op (.returned answer) with session := t, holder := none }
  | leave (i : Nat) (op : Operation) (hcall : c.calls i = some (op, .waiting)) :
      c.Makes (.drop i) (c.put i op .dropped)
  | abandon (i : Nat) (op : Operation) (p) (hcall : c.calls i = some (op, .holding p))
      (hwaits : p.waits = true) :
      c.Makes (.drop i) { c.put i op .dropped with holder := none }

/-- The runs of a shared session: what happened and what has come of it. -/
inductive Runs (s : Session) : List Move → Shared → Prop
  | nil : Runs s [] { session := s }
  | snoc {moves : List Move} {c d : Shared} {move : Move} (before : Runs s moves c)
      (made : c.Makes move d) : Runs s (moves ++ [move]) d

/-- How a call that has given the lock back came out, compared with its turn in a history: it
returned what the turn answers, or it was dropped and the turn is a read that is cancelled where the
call was dropped. -/
inductive Served (c : Shared) (moves : List Move) (i : Nat) (turn : Turn) : Prop
  | returned (hcall : c.calls i = some (turn.operation, .returned turn.answer))
      (hsteps : turn.steps = stepsOf moves i) : Served c moves i turn
  | dropped (hcall : c.calls i = some (turn.operation, .dropped))
      (hanswer : turn.answer = .read (.error .cancelled)) (last : Step)
      (hlast : last.IsCancelled) (hsteps : turn.steps = stepsOf moves i ++ [last]) :
      Served c moves i turn

/-- A run of a shared session goes like a history of the calls that were granted the lock, in the
order of the grants. -/
structure Serialised (s : Session) (moves : List Move) (c : Shared) (served : List (Nat × Turn))
    (t : Session) : Prop where
  turns : s.Turns (served.map Prod.snd) t
  order : grants moves = served.map Prod.fst ++ c.holder.toList
  nodup : (grants moves).Nodup
  /-- All that was asked of the store was asked by one call after the other. -/
  steps : allSteps moves = (grants moves).flatMap (stepsOf moves)
  unserved : ∀ i, i ∉ grants moves → stepsOf moves i = []
  outcomes : ∀ i turn, (i, turn) ∈ served → Served c moves i turn
  returned : ∀ i op answer, c.calls i = some (op, .returned answer) → i ∈ served.map Prod.fst
  /-- Only the call that has the lock works. -/
  alone : ∀ i op p, c.calls i = some (op, .holding p) → c.holder = some i
  /-- While no call has the lock, the session is the one that the history leads to. -/
  free : c.holder = none → c.session = t
  /-- The call that has the lock is on its way from there. -/
  held : ∀ i, c.holder = some i → ∃ op p, c.calls i = some (op, .holding p) ∧
    c.session = op.enter t ∧ (t.perform Program.backend op).Reaches (stepsOf moves i) p

namespace Served

/-- How a call came out is not changed by what happens to others. -/
theorem of_eq {moves' : List Move} (h : c.Served moves i turn) (hcalls : d.calls i = c.calls i)
    (hsteps : stepsOf moves' i = stepsOf moves i) : d.Served moves' i turn := by
  cases h with
  | returned hcall hmade => exact .returned (hcalls.trans hcall) (hmade.trans hsteps.symm)
  | dropped hcall hanswer last hlast hmade =>
    exact .dropped (hcalls.trans hcall) hanswer last hlast (by rw [hmade, hsteps])

/-- A call that came out is over. -/
theorem isOver (h : c.Served moves i turn) :
    ∃ phase, c.calls i = some (turn.operation, phase) ∧ phase.IsOver := by
  cases h with
  | returned hcall => exact ⟨_, hcall, trivial⟩
  | dropped hcall => exact ⟨_, hcall, trivial⟩

end Served

namespace Serialised

/-- Nothing has happened yet. -/
theorem nil (s : Session) : Serialised s [] { session := s } [] s where
  turns := .nil
  order := rfl
  nodup := List.nodup_nil
  steps := rfl
  unserved _ _ := rfl
  outcomes _ _ hmem := absurd hmem List.not_mem_nil
  returned _ _ _ hcall := nomatch hcall
  alone _ _ _ hcall := nomatch hcall
  free _ := rfl
  held _ hholder := nomatch hholder

/-- A call that was granted the lock does not wait for it any more. -/
theorem begun (h : Serialised s moves c served t) (hi : i ∈ grants moves) :
    ∃ op phase, c.calls i = some (op, phase) ∧ phase ≠ .waiting := by
  rw [h.order, List.mem_append, List.mem_map, Option.mem_toList] at hi
  rcases hi with ⟨⟨j, turn⟩, hmem, rfl⟩ | hholder
  · obtain ⟨phase, hcall, hover⟩ := (h.outcomes j turn hmem).isOver
    refine ⟨turn.operation, phase, hcall, ?_⟩
    rintro rfl
    exact hover
  · obtain ⟨op, p, hcall, -⟩ := h.held i hholder
    exact ⟨op, _, hcall, nofun⟩

/-- A call that waits was not granted the lock. -/
theorem not_mem_grants (h : Serialised s moves c served t)
    (hcall : c.calls i = some (op, .waiting)) : i ∉ grants moves := by
  intro hi
  obtain ⟨op', phase, hcall', hphase⟩ := h.begun hi
  rw [hcall, Option.some.injEq, Prod.mk.injEq] at hcall'
  exact hphase hcall'.2.symm

/-- A call that is served was granted its turn. -/
theorem mem_grants (h : Serialised s moves c served t) (hmem : (i, turn) ∈ served) :
    i ∈ grants moves := by
  rw [h.order]
  exact List.mem_append_left _ (List.mem_map_of_mem hmem)

/-- So was the one that has its turn. -/
theorem holder_mem_grants (h : Serialised s moves c served t) (hholder : c.holder = some i) :
    i ∈ grants moves := by
  rw [h.order, hholder]
  exact List.mem_append_right _ (List.mem_singleton_self i)

/-- The call that has the lock is none of those that gave it back. -/
theorem ne_holder (h : Serialised s moves c served t) (hholder : c.holder = some i)
    (hmem : (j, turn) ∈ served) : j ≠ i := by
  rintro rfl
  obtain ⟨op, p, hcall, -⟩ := h.held j hholder
  obtain ⟨phase, hcall', hover⟩ := (h.outcomes j turn hmem).isOver
  rw [hcall, Option.some.injEq, Prod.mk.injEq] at hcall'
  rw [← hcall'.2] at hover
  exact hover

/-- The call that works has the lock and is on its way from where the history has come to. -/
theorem of_holding (h : Serialised s moves c served t) {p : Program (Answer × Session)}
    (hcall : c.calls i = some (op, .holding p)) : c.holder = some i ∧
      c.session = op.enter t ∧ (t.perform Program.backend op).Reaches (stepsOf moves i) p := by
  have hholder := h.alone i op p hcall
  obtain ⟨op', p', hcall', hsession, hreaches⟩ := h.held i hholder
  rw [hcall, Option.some.injEq, Prod.mk.injEq, Phase.holding.injEq] at hcall'
  obtain ⟨rfl, rfl⟩ := hcall'
  exact ⟨hholder, hsession, hreaches⟩

/-- Calls that come, or go before they are granted the lock, change nothing. -/
theorem outside (h : Serialised s moves c served t) (hquiet : move.IsQuiet)
    (hi : i ∉ grants moves) (hphase : phase = .waiting ∨ phase = .dropped) :
    Serialised s (moves ++ [move]) (c.put i op phase) served t := by
  obtain ⟨hgrants, hall, hsteps⟩ := hquiet.same moves
  have hcalls (j : Nat) (hj : j ∈ grants moves) : (c.put i op phase).calls j = c.calls j :=
    put_of_ne fun hji => hi (hji ▸ hj)
  exact {
    turns := h.turns
    order := hgrants ▸ h.order
    nodup := hgrants ▸ h.nodup
    steps := by rw [hgrants, hall, hsteps, h.steps]
    unserved := by
      rw [hgrants, hsteps]
      exact h.unserved
    outcomes := by
      intro j turn hmem
      exact (h.outcomes j turn hmem).of_eq (hcalls j (h.mem_grants hmem)) (congrFun hsteps j)
    returned := by
      intro j op' answer hj
      rcases of_put hj with ⟨-, rfl⟩ | ⟨-, hj⟩
      · exact hphase.elim nofun nofun
      · exact h.returned j op' answer hj
    alone := by
      intro j op' p hj
      rcases of_put hj with ⟨-, rfl⟩ | ⟨-, hj⟩
      · exact hphase.elim nofun nofun
      · exact h.alone j op' p hj
    free := h.free
    held := by
      intro j hholder
      obtain ⟨op', p, hcall, hsession, hreaches⟩ := h.held j hholder
      have hcall' := (hcalls j (h.holder_mem_grants hholder)).trans hcall
      rw [hsteps]
      exact ⟨op', p, hcall', hsession, hreaches⟩ }

/-- A call is granted the lock and begins where the history has come to. -/
theorem grant (h : Serialised s moves c served t) (hcall : c.calls i = some (op, .waiting))
    (hfree : c.holder = none) :
    Serialised s (moves ++ [.grant i])
      { c.put i op (.holding ((op.enter c.session).perform Program.backend op)) with
        session := op.enter c.session, holder := some i } served t := by
  have hi := h.not_mem_grants hcall
  have hgrants : grants (moves ++ [.grant i]) = grants moves ++ [i] := by simp [Move.granted?]
  have hall : allSteps (moves ++ [.grant i]) = allSteps moves := by simp [Move.step?]
  have hsteps : stepsOf (moves ++ [.grant i]) = stepsOf moves :=
    funext fun j => by simp [Move.stepOf?]
  have horder := h.order
  rw [hfree, Option.toList_none, List.append_nil] at horder
  exact {
    turns := h.turns
    order := by
      rw [hgrants, horder]
      rfl
    nodup := by
      rw [hgrants, List.nodup_append]
      refine ⟨h.nodup, List.nodup_singleton i, ?_⟩
      rintro j hj k hk rfl
      exact hi (List.mem_singleton.mp hk ▸ hj)
    steps := by
      rw [hgrants, hall, hsteps, List.flatMap_append, List.flatMap_singleton, h.unserved i hi,
        List.append_nil, h.steps]
    -- calls that were not granted the lock have made no steps
    unserved := by
      intro j hj
      rw [hgrants] at hj
      rw [hsteps]
      exact h.unserved j fun hmem => hj (List.mem_append_left _ hmem)
    outcomes := by
      intro j turn hmem
      have hji : j ≠ i := by
        rintro rfl
        exact hi (h.mem_grants hmem)
      exact (h.outcomes j turn hmem).of_eq (put_of_ne hji) (congrFun hsteps j)
    returned := by
      intro j op' answer hj
      rcases of_put hj with ⟨-, hphase⟩ | ⟨-, hj⟩
      · cases hphase
      · exact h.returned j op' answer hj
    alone := by
      intro j op' p hj
      rcases of_put hj with ⟨rfl, -⟩ | ⟨-, hj⟩
      · rfl
      · have hholder := h.alone j op' p hj
        simp [hfree] at hholder
    free := nofun
    held := by
      intro j hholder
      rw [Option.some.injEq] at hholder
      subst hholder
      refine ⟨op, _, put_self, by rw [h.free hfree], ?_⟩
      rw [hsteps, h.unserved i hi, Session.perform_enter, h.free hfree]
      exact .refl _ }

/-- The call that has the lock goes on. -/
theorem work (h : Serialised s moves c served t) {p q : Program (Answer × Session)} {step : Step}
    (hcall : c.calls i = some (op, .holding p)) (hdoes : p.Does step q) :
    Serialised s (moves ++ [.work i step]) (c.put i op (.holding q)) served t := by
  obtain ⟨hholder, hsession, hreaches⟩ := h.of_holding hcall
  have hgrants : grants (moves ++ [.work i step]) = grants moves := by simp [Move.granted?]
  have hall : allSteps (moves ++ [.work i step]) = allSteps moves ++ [step] := by simp [Move.step?]
  have hmine : stepsOf (moves ++ [.work i step]) i = stepsOf moves i ++ [step] := by
    simp [Move.stepOf?]
  have hothers (j : Nat) (hj : j ≠ i) : stepsOf (moves ++ [.work i step]) j = stepsOf moves j := by
    simp [Move.stepOf?, hj.symm]
  exact {
    turns := h.turns
    order := hgrants ▸ h.order
    nodup := hgrants ▸ h.nodup
    steps := by
      -- the step is the last of all, since the call that makes it was granted the lock last
      have hbefore : (served.map Prod.fst).flatMap (stepsOf (moves ++ [.work i step])) =
          (served.map Prod.fst).flatMap (stepsOf moves) := by
        refine List.flatMap_congr fun j hj => hothers j ?_
        obtain ⟨⟨k, turn⟩, hmem, rfl⟩ := List.mem_map.mp hj
        exact h.ne_holder hholder hmem
      rw [hgrants, hall, h.steps, h.order, hholder, Option.toList_some, List.flatMap_append,
        List.flatMap_append, hbefore, List.flatMap_singleton, List.flatMap_singleton, hmine,
        List.append_assoc]
    unserved := by
      intro j hj
      rw [hgrants] at hj
      have hji : j ≠ i := by
        rintro rfl
        exact hj (h.holder_mem_grants hholder)
      rw [hothers j hji]
      exact h.unserved j hj
    outcomes := by
      intro j turn hmem
      have hji := h.ne_holder hholder hmem
      exact (h.outcomes j turn hmem).of_eq (put_of_ne hji) (hothers j hji)
    returned := by
      intro j op' answer hj
      rcases of_put hj with ⟨-, hphase⟩ | ⟨-, hj⟩
      · cases hphase
      · exact h.returned j op' answer hj
    alone := by
      intro j op' p' hj
      rcases of_put hj with ⟨rfl, -⟩ | ⟨-, hj⟩
      · exact hholder
      · exact h.alone j op' p' hj
    free := by
      intro hfree
      rw [put_holder, hholder] at hfree
      cases hfree
    held := by
      intro j hj
      cases hholder.symm.trans hj
      refine ⟨op, q, put_self, hsession, ?_⟩
      rw [hmine]
      exact hreaches.append (.cons hdoes (.refl q)) }

/-- The call that has the lock gives it back, and its turn is over. -/
theorem release (h : Serialised s moves c served t) (turn : Turn) (phase : Phase)
    (hquiet : move.IsQuiet) (hholder : c.holder = some i) (hphase : ∀ p, phase ≠ .holding p)
    (hrun : (t.perform Program.backend turn.operation).Returns turn.steps
      (turn.answer, turn.after))
    (houtcome : (c.put i turn.operation phase).Served (moves ++ [move]) i turn) :
    Serialised s (moves ++ [move])
      { c.put i turn.operation phase with session := turn.after, holder := none }
      (served ++ [(i, turn)]) turn.after := by
  obtain ⟨hgrants, hall, hsteps⟩ := hquiet.same moves
  exact {
    turns := by
      rw [List.map_append]
      exact .snoc h.turns hrun
    order := by
      rw [hgrants, h.order, hholder]
      simp
    nodup := hgrants ▸ h.nodup
    steps := by rw [hgrants, hall, hsteps, h.steps]
    unserved := by
      rw [hgrants, hsteps]
      exact h.unserved
    outcomes := by
      intro j turn' hmem
      rcases List.mem_append.mp hmem with hmem | hmem
      · have hji := h.ne_holder hholder hmem
        exact (h.outcomes j turn' hmem).of_eq (put_of_ne hji) (congrFun hsteps j)
      · rw [List.mem_singleton, Prod.mk.injEq] at hmem
        obtain ⟨rfl, rfl⟩ := hmem
        exact houtcome.of_eq rfl rfl
    returned := by
      intro j op' answer hj
      rw [List.map_append]
      rcases of_put hj with ⟨rfl, -⟩ | ⟨-, hj⟩
      · exact List.mem_append_right _ (List.mem_singleton_self j)
      · exact List.mem_append_left _ (h.returned j op' answer hj)
    alone := by
      intro j op' p hj
      rcases of_put hj with ⟨-, hp⟩ | ⟨hji, hj⟩
      · exact absurd hp.symm (hphase p)
      · cases hholder.symm.trans (h.alone j op' p hj)
        exact absurd rfl hji
    free := fun _ => rfl
    held := nofun }

/-- Everything that can happen keeps a run serialised. -/
theorem makes (h : Serialised s moves c served t) (hmade : c.Makes move d) :
    ∃ served t, Serialised s (moves ++ [move]) d served t := by
  cases hmade with
  | call i op hnew =>
    have hi : i ∉ grants moves := by
      intro hi
      obtain ⟨op', phase, hcall, -⟩ := h.begun hi
      simp [hnew] at hcall
    exact ⟨served, t, h.outside trivial hi (Or.inl rfl)⟩
  | grant i op hcall hfree => exact ⟨served, t, h.grant hcall hfree⟩
  | work i op p step q hcall hdoes => exact ⟨served, t, h.work hcall hdoes⟩
  | finish i op answer u hcall =>
    obtain ⟨hholder, -, hreaches⟩ := h.of_holding hcall
    have hquiet : Move.IsQuiet (.finish i) := trivial
    obtain ⟨-, -, hsteps⟩ := hquiet.same moves
    have houtcome : (c.put i op (.returned answer)).Served (moves ++ [.finish i]) i
        ⟨op, stepsOf moves i, answer, u⟩ := .returned put_self (congrFun hsteps i).symm
    exact ⟨_, _, h.release ⟨op, stepsOf moves i, answer, u⟩ (.returned answer) hquiet hholder nofun
      hreaches houtcome⟩
  | leave i op hcall =>
    exact ⟨served, t, h.outside trivial (h.not_mem_grants hcall) (Or.inr rfl)⟩
  | abandon i op p hcall hwaits =>
    obtain ⟨hholder, hsession, hreaches⟩ := h.of_holding hcall
    -- its turn ends where it was dropped, by a cancellation in place of the answer that never came
    obtain ⟨last, hlast, hrun⟩ := Session.perform_cancelsTo.returns_of_waits hreaches hwaits
    have hquiet : Move.IsQuiet (.drop i) := trivial
    obtain ⟨-, -, hsteps⟩ := hquiet.same moves
    have houtcome : (c.put i op .dropped).Served (moves ++ [.drop i]) i
        ⟨op, stepsOf moves i ++ [last], .read (.error .cancelled), op.enter t⟩ :=
      .dropped put_self rfl last hlast (by rw [hsteps])
    have hserialised := h.release ⟨op, stepsOf moves i ++ [last], .read (.error .cancelled),
      op.enter t⟩ .dropped hquiet hholder nofun hrun houtcome
    rw [← hsession] at hserialised
    exact ⟨_, _, hserialised⟩

end Serialised

/-- Every run of a shared session is serialised. -/
theorem Runs.serialised (h : Runs s moves c) : ∃ served t, Serialised s moves c served t := by
  induction h with
  | nil => exact ⟨[], s, .nil s⟩
  | snoc before made ih =>
    obtain ⟨served, t, hserialised⟩ := ih
    exact hserialised.makes made

/-- What comes of something, where it can happen. -/
def make? (c : Shared) : Move → Option Shared
  | .call i op => if (c.calls i).isNone then some (c.put i op .waiting) else none
  | .grant i =>
    match c.calls i, c.holder with
    | some (op, .waiting), none =>
      some { c.put i op (.holding ((op.enter c.session).perform Program.backend op)) with
        session := op.enter c.session, holder := some i }
    | _, _ => none
  | .work i step =>
    match c.calls i with
    | some (op, .holding p) => (p.next? step).map fun q => c.put i op (.holding q)
    | _ => none
  | .finish i =>
    match c.calls i with
    | some (op, .holding (.done (answer, t))) =>
      some { c.put i op (.returned answer) with session := t, holder := none }
    | _ => none
  | .drop i =>
    match c.calls i with
    | some (op, .waiting) => some (c.put i op .dropped)
    | some (op, .holding p) =>
      if p.waits then some { c.put i op .dropped with holder := none } else none
    | _ => none

/-- A move that can be computed can be made. -/
theorem makes_of_make? (h : c.make? move = some d) : c.Makes move d := by
  cases move with
  | call i op =>
    simp only [make?, Option.isNone_iff_eq_none, Option.ite_none_right_eq_some,
      Option.some.injEq] at h
    obtain ⟨hnew, rfl⟩ := h
    exact .call i op hnew
  | grant i =>
    simp only [make?] at h
    split at h
    · rename_i op hcall hfree
      rw [Option.some.injEq] at h
      rw [← h]
      exact .grant i op hcall hfree
    · cases h
  | work i step =>
    simp only [make?] at h
    split at h
    · rename_i op p hcall
      rw [Option.map_eq_some_iff] at h
      obtain ⟨q, hq, rfl⟩ := h
      exact .work i op p step q hcall (Program.does_of_next? hq)
    · cases h
  | finish i =>
    simp only [make?] at h
    split at h
    · rename_i op answer t hcall
      rw [Option.some.injEq] at h
      rw [← h]
      exact .finish i op answer t hcall
    · cases h
  | drop i =>
    simp only [make?] at h
    split at h
    · rename_i op hcall
      rw [Option.some.injEq] at h
      rw [← h]
      exact .leave i op hcall
    · rename_i op p hcall
      rw [Option.ite_none_right_eq_some, Option.some.injEq] at h
      obtain ⟨hwaits, rfl⟩ := h
      exact .abandon i op p hcall hwaits
    · cases h

/-- What comes of a run, where all of it can happen. -/
def follow (c : Shared) (moves : List Move) : Option Shared := moves.foldlM make? c

/-- Moves that can be followed make a run. -/
theorem runs_of_follow (h : follow { session := s } moves = some c) : Runs s moves c := by
  have hmake (moves : List Move) (c : Shared) (move : Move) (d : Shared)
      (before : Runs s moves c) (made : c.make? move = some d) : Runs s (moves ++ [move]) d :=
    .snoc before (makes_of_make? made)
  exact holds_of_foldlM hmake .nil h

end Shared

end ChunkedFile
