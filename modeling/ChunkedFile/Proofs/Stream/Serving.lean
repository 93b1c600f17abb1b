import ChunkedFile.Proofs.Run.Interruption
import ChunkedFile.Proofs.Stream.Calls

/-!
# Ranges that are served side by side

A link opens any number of ranges, and the calls on all of them go on side by side: between two
steps of one call anything can happen elsewhere. On one range the calls take turns, since its
session has a lock. A release takes what it is to release out of the set before it waits for its
turn, so another release that comes meanwhile finds nothing there and returns at once.
-/

namespace ChunkedFile

instance : DecidableEq (Except Error ByteArray) :=
  have : DecidableEq ByteArray := ByteArray.instDecidableEq
  inferInstance

deriving instance DecidableEq for Answer

/-- A call on an opened range, of which only what becomes of the stream is kept: the set may have
been taken from meanwhile. -/
def Opened.serve {m : Type → Type} [Monad m] (backend : Backend m) (opened : Opened)
    (op : Operation) : m (Answer × RangeStream) := do
  let (answer, after) ← opened.perform backend op
  return (answer, after.stream)

/-- A call that has its turn. -/
structure Work where
  /-- What it has asked for so far. -/
  made : List Step
  /-- What it has left to do. -/
  rest : Program (Answer × RangeStream)

/-- An opened range with the calls that are on their way on it. -/
structure Served where
  opened : Opened
  /-- What a release that waits for its turn has taken out of the set. -/
  taken : Option (ReleaseSet Held) := none
  /-- The call that has its turn. -/
  turn : Option Work := none

/-- What can happen on a range. -/
inductive Act where
  /-- A read gets its turn. -/
  | read (n : Nat)
  /-- A release takes what is in the set, and waits for its turn. -/
  | take
  /-- A release that has taken something gets its turn. -/
  | release
  /-- A release finds nothing in the set, and returns. -/
  | pass
  /-- The call that has its turn goes on by one step. -/
  | work (step : Step)
  /-- The call that has its turn returns. -/
  | finish (answer : Answer)

namespace Act

/-- The step that is made. -/
def steps : Act → List Step
  | .work step => [step]
  | _ => []

/-- The answer that is given. -/
def answer? : Act → Option Answer
  | .finish answer => some answer
  | .pass => some (.close (.ok ()))
  | _ => none

/-- Whether a release returns that had its turn. -/
def closes : Act → Bool
  | .finish (.close _) => true
  | _ => false

end Act

namespace Served

/-- What can happen next on a range, and what comes of it. The first release that takes something
leaves nothing for another to take. -/
inductive Makes : Served → Act → Served → Prop
  | read (opened taken n) :
      Makes ⟨opened, taken, none⟩ (.read n)
        ⟨opened, taken, some ⟨[], opened.serve Program.backend (.read n)⟩⟩
  | take (stream releases turn) (hset : releases.isEmpty = false) :
      Makes ⟨⟨stream, releases⟩, none, turn⟩ .take ⟨⟨stream, {}⟩, some releases, turn⟩
  | release (opened set) :
      Makes ⟨opened, some set, none⟩ .release
        ⟨opened, none, some ⟨[], Opened.serve Program.backend ⟨opened.stream, set⟩ .close⟩⟩
  | pass (served : Served) (hset : served.opened.releases.isEmpty = true) :
      Makes served .pass served
  | work (opened taken made p step q) (hdoes : p.Does step q) :
      Makes ⟨opened, taken, some ⟨made, p⟩⟩ (.work step) ⟨opened, taken, some ⟨made ++ [step], q⟩⟩
  | finish (opened taken made answer stream) :
      Makes ⟨opened, taken, some ⟨made, .done (answer, stream)⟩⟩ (.finish answer)
        ⟨{ opened with stream }, taken, none⟩

/-- What comes of something, where it can happen. -/
def make? : Served → Act → Option Served
  | ⟨opened, taken, none⟩, .read n =>
    some ⟨opened, taken, some ⟨[], opened.serve Program.backend (.read n)⟩⟩
  | ⟨⟨stream, releases⟩, none, turn⟩, .take =>
    if releases.isEmpty = false then some ⟨⟨stream, {}⟩, some releases, turn⟩ else none
  | ⟨opened, some set, none⟩, .release =>
    some ⟨opened, none, some ⟨[], Opened.serve Program.backend ⟨opened.stream, set⟩ .close⟩⟩
  | served, .pass => if served.opened.releases.isEmpty = true then some served else none
  | ⟨opened, taken, some ⟨made, p⟩⟩, .work step =>
    (p.next? step).map fun q => ⟨opened, taken, some ⟨made ++ [step], q⟩⟩
  | ⟨opened, taken, some ⟨_, .done (answer, stream)⟩⟩, .finish given =>
    if answer = given then some ⟨{ opened with stream }, taken, none⟩ else none
  | _, _ => none

theorem makes_of_make? {served next : Served} {act : Act} (h : served.make? act = some next) :
    served.Makes act next := by
  rw [make?.eq_def] at h
  split at h
  · rw [Option.some.injEq] at h
    rw [← h]
    exact .read _ _ _
  · rw [Option.ite_none_right_eq_some, Option.some.injEq] at h
    rw [← h.2]
    exact .take _ _ _ h.1
  · rw [Option.some.injEq] at h
    rw [← h]
    exact .release _ _
  · rw [Option.ite_none_right_eq_some, Option.some.injEq] at h
    rw [← h.2]
    exact .pass _ h.1
  · rw [Option.map_eq_some_iff] at h
    obtain ⟨q, hq, rfl⟩ := h
    exact .work _ _ _ _ _ q (Program.does_of_next? hq)
  · rw [Option.ite_none_right_eq_some, Option.some.injEq] at h
    obtain ⟨rfl, rfl⟩ := h
    exact .finish _ _ _ _ _
  · cases h

end Served

namespace Link

/-- What can happen on a link. -/
inductive Move where
  /-- A range is opened. -/
  | accept (range : ByteRange) (steps : List Step)
  /-- A range is not opened. -/
  | refuse (range : ByteRange) (steps : List Step)
  /-- Something happens on one of the opened ranges. -/
  | on (i : Nat) (act : Act)

namespace Move

/-- Whether a range is opened. -/
def opens : Move → Bool
  | .accept .. => true
  | .refuse .. | .on .. => false

/-- The steps that are made. -/
def steps : Move → List Step
  | .accept _ steps | .refuse _ steps => steps
  | .on _ act => act.steps

/-- The answer of a call on a range. -/
def answer? : Move → Option Answer
  | .on _ act => act.answer?
  | .accept .. | .refuse .. => none

/-- Whether a release of a given range returns that had its turn. -/
def closes (i : Nat) : Move → Bool
  | .on j act => j = i && act.closes
  | .accept .. | .refuse .. => false

end Move

/-- All steps that were made, in their order. -/
def stepsIn (moves : List Move) : List Step := moves.flatMap Move.steps

/-- What the calls on all ranges answered, in their order. -/
def answersIn (moves : List Move) : List Answer := moves.filterMap Move.answer?

/-- Whether a range was released. -/
def released (moves : List Move) (i : Nat) : Bool := moves.any (Move.closes i)

variable {link : Link} {ranges next : List Served} {move : Move} {moves : List Move}

@[simp] theorem stepsIn_append (moves : List Move) (move : Move) :
    stepsIn (moves ++ [move]) = stepsIn moves ++ move.steps := by
  simp [stepsIn]

@[simp] theorem answersIn_append (moves : List Move) (move : Move) :
    answersIn (moves ++ [move]) = answersIn moves ++ move.answer?.toList :=
  filterMap_append_singleton _ moves move

/-- A further move counts where it releases the range. -/
@[simp] theorem released_append (moves : List Move) (move : Move) (i : Nat) :
    released (moves ++ [move]) i = (released moves i || move.closes i) := by
  simp [released]

/-- What can happen next on a link, and what comes of it. -/
inductive Makes (link : Link) : List Served → Move → List Served → Prop
  | accept (ranges range steps opened)
      (hopen : (link.openRange Program.backend range).Returns steps (.ok opened)) :
      link.Makes ranges (.accept range steps) (ranges ++ [⟨opened, none, none⟩])
  | refuse (ranges range steps e)
      (hopen : (link.openRange Program.backend range).Returns steps (.error e)) :
      link.Makes ranges (.refuse range steps) ranges
  | on (before served after act next) (hmade : Served.Makes served act next) :
      link.Makes (before ++ served :: after) (.on before.length act) (before ++ next :: after)

/-- The runs of a link: what happened, and the opened ranges in the order of their opening. -/
inductive Runs (link : Link) : List Move → List Served → Prop
  | nil : link.Runs [] []
  | snoc {moves : List Move} {ranges next : List Served} {move : Move}
      (before : link.Runs moves ranges) (made : link.Makes ranges move next) :
      link.Runs (moves ++ [move]) next

/-- What comes of something, where it can happen. -/
def make? (link : Link) (ranges : List Served) : Move → Option (List Served)
  | .accept range steps =>
    match (link.openRange Program.backend range).follow steps with
    | some (.ok opened) => some (ranges ++ [⟨opened, none, none⟩])
    | _ => none
  | .refuse range steps =>
    match (link.openRange Program.backend range).follow steps with
    | some (.error _) => some ranges
    | _ => none
  | .on i act =>
    match ranges[i]? with
    | some served => (served.make? act).map fun next => ranges.take i ++ next :: ranges.drop (i + 1)
    | none => none

theorem makes_of_make? (h : link.make? ranges move = some next) : link.Makes ranges move next := by
  cases move with
  | accept range steps =>
    simp only [make?] at h
    split at h
    · rename_i opened hopen
      rw [Option.some.injEq] at h
      rw [← h]
      exact .accept ranges range steps opened (Program.returns_of_follow hopen)
    · cases h
  | refuse range steps =>
    simp only [make?] at h
    split at h
    · rename_i e hopen
      rw [Option.some.injEq] at h
      rw [← h]
      exact .refuse ranges range steps e (Program.returns_of_follow hopen)
    · cases h
  | on i act =>
    simp only [make?] at h
    split at h
    · rename_i served hserved
      obtain ⟨hi, rfl⟩ := List.getElem?_eq_some_iff.mp hserved
      rw [Option.map_eq_some_iff] at h
      obtain ⟨after, hmade, rfl⟩ := h
      have hlength : (ranges.take i).length = i := List.length_take_of_le (Nat.le_of_lt hi)
      have hmakes : link.Makes _ _ _ := .on (ranges.take i) _ (ranges.drop (i + 1)) act after
        (Served.makes_of_make? hmade)
      rw [hlength, List.getElem_cons_drop, List.take_append_drop] at hmakes
      exact hmakes
    · cases h

/-- What comes of a run, where all of it can happen. -/
def follow (link : Link) (moves : List Move) : Option (List Served) := moves.foldlM link.make? []

theorem runs_of_follow (h : link.follow moves = some ranges) : link.Runs moves ranges := by
  have hmake (moves : List Move) (ranges : List Served) (move : Move) (next : List Served)
      (before : link.Runs moves ranges) (made : link.make? ranges move = some next) :
      link.Runs (moves ++ [move]) next := .snoc before (makes_of_make? made)
  exact holds_of_foldlM hmake .nil h

end Link

end ChunkedFile
