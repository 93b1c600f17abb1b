import ChunkedFile.Fetch.Backend

/-!
# Readers as trees of requests

A reader written over any backend is, over `Program.backend`, the tree of all it may ask, with one
branch for every answer. A run is a path through the tree, so a statement about all runs covers
every backend, whatever it keeps in mind between its answers. A path need not end in a result: it
is then a reader that still waits, or one that was given up.
-/

namespace ChunkedFile

/-- One request of a reader with the answer to it. -/
inductive Step where
  | fetch (call : Call) (answer : Except Error ByteArray)
  | pause (ms : Nat) (elapsed : Bool)
  | now (time : Nat)
  | record (event : Event)

/-- A reader as the tree of its requests. -/
inductive Program (α : Type) : Type where
  | done (value : α)
  | fetch (call : Call) (next : Except Error ByteArray → Program α)
  | pause (ms : Nat) (next : Bool → Program α)
  | now (next : Nat → Program α)
  | record (event : Event) (next : Program α)

namespace Program

variable {α β : Type}

/-- Goes on with `f` wherever a program is done. -/
def andThen (f : α → Program β) : Program α → Program β
  | .done value => f value
  | .fetch call next => .fetch call fun answer => (next answer).andThen f
  | .pause ms next => .pause ms fun elapsed => (next elapsed).andThen f
  | .now next => .now fun time => (next time).andThen f
  | .record event next => .record event (next.andThen f)

instance : Monad Program where
  pure := .done
  bind p f := p.andThen f

theorem bind_eq (p : Program α) (f : α → Program β) : p >>= f = p.andThen f := rfl

theorem pure_eq (value : α) : (pure value : Program α) = .done value := rfl

/-- Going on with nothing changes nothing. -/
theorem andThen_done (p : Program α) : p.andThen .done = p := by
  induction p with
  | done value => rfl
  | fetch call next ih => simp only [andThen, ih]
  | pause ms next ih => simp only [andThen, ih]
  | now next ih => simp only [andThen, ih]
  | record event next ih => simp only [andThen, ih]

/-- What a program goes on with may itself be composed. -/
theorem andThen_assoc {γ : Type} (p : Program α) (f : α → Program β) (g : β → Program γ) :
    (p.andThen f).andThen g = p.andThen fun value => (f value).andThen g := by
  induction p with
  | done value => rfl
  | fetch call next ih => simp only [andThen, ih]
  | pause ms next ih => simp only [andThen, ih]
  | now next ih => simp only [andThen, ih]
  | record event next ih => simp only [andThen, ih]

instance : LawfulMonad Program :=
  LawfulMonad.mk' Program andThen_done (fun _ _ => rfl) andThen_assoc

/-- The backend that leaves every answer open. -/
def backend : Backend Program where
  fetch call := .fetch call .done
  pause ms := .pause ms .done
  now := .now .done
  record event := .record event (.done ())

/-- One step down the tree. -/
inductive Does : Program α → Step → Program α → Prop
  | fetch (call next answer) : Does (.fetch call next) (.fetch call answer) (next answer)
  | pause (ms next elapsed) : Does (.pause ms next) (.pause ms elapsed) (next elapsed)
  | now (next time) : Does (.now next) (.now time) (next time)
  | record (event next) : Does (.record event next) (.record event) next

/-- A path down the tree, to any of its nodes. -/
inductive Reaches : Program α → List Step → Program α → Prop
  | refl (p) : Reaches p [] p
  | cons {p step p' steps q} : Does p step p' → Reaches p' steps q → Reaches p (step :: steps) q

/-- A path to a result. -/
def Returns (p : Program α) (steps : List Step) (value : α) : Prop := p.Reaches steps (.done value)

/-- A program that is done goes nowhere. -/
theorem reaches_done_iff {value : α} {steps : List Step} {q : Program α} :
    (Program.done value).Reaches steps q ↔ steps = [] ∧ q = .done value := by
  constructor
  · intro h
    cases h with
    | refl => exact ⟨rfl, rfl⟩
    | cons hstep => cases hstep
  · rintro ⟨rfl, rfl⟩
    exact .refl _

/-- A step of a composition is one of its first part, or of the second where the first is done. -/
theorem Does.of_andThen {p : Program α} {f : α → Program β} {step : Step} {q : Program β}
    (h : (p.andThen f).Does step q) :
    (∃ p', p.Does step p' ∧ q = p'.andThen f) ∨ ∃ value, p = .done value ∧ (f value).Does step q := by
  cases p with
  | done value => exact Or.inr ⟨value, rfl, h⟩
  | fetch call next =>
    cases h with
    | fetch _ _ answer => exact Or.inl ⟨next answer, .fetch call next answer, rfl⟩
  | pause ms next =>
    cases h with
    | pause _ _ elapsed => exact Or.inl ⟨next elapsed, .pause ms next elapsed, rfl⟩
  | now next =>
    cases h with
    | now _ time => exact Or.inl ⟨next time, .now next time, rfl⟩
  | record event next =>
    cases h with
    | record => exact Or.inl ⟨next, .record event next, rfl⟩

/-- Steps of the first part are steps of a composition. -/
theorem Does.andThen {p p' : Program α} {step : Step} (h : p.Does step p') (f : α → Program β) :
    (p.andThen f).Does step (p'.andThen f) := by
  cases h with
  | fetch call next answer => exact .fetch call _ answer
  | pause ms next elapsed => exact .pause ms _ elapsed
  | now next time => exact .now _ time
  | record event next => exact .record event _

/-- A path through a composition stays in the first part or runs through it into the second. -/
theorem reaches_bind {p : Program α} {f : α → Program β} {steps : List Step} {q : Program β}
    (h : (p >>= f).Reaches steps q) :
    (∃ p', p.Reaches steps p' ∧ q = p'.andThen f) ∨
      ∃ first value second, p.Returns first value ∧ (f value).Reaches second q ∧
        steps = first ++ second := by
  rw [bind_eq] at h
  induction steps generalizing p with
  | nil =>
    cases h
    exact Or.inl ⟨p, .refl p, rfl⟩
  | cons step steps ih =>
    cases h with
    | cons hstep hrest =>
      rcases hstep.of_andThen with ⟨p', hp, rfl⟩ | ⟨value, rfl, hf⟩
      · rcases ih hrest with ⟨p'', hp', rfl⟩ | ⟨first, value, second, hfirst, hsecond, rfl⟩
        · exact Or.inl ⟨p'', .cons hp hp', rfl⟩
        · exact Or.inr ⟨step :: first, value, second, .cons hp hfirst, hsecond, rfl⟩
      · exact Or.inr ⟨[], value, step :: steps, .refl _, .cons hf hrest, rfl⟩

/-- Paths compose. -/
theorem Reaches.append {p q r : Program α} {first second : List Step} (h : p.Reaches first q)
    (hq : q.Reaches second r) : p.Reaches (first ++ second) r := by
  induction h with
  | refl => exact hq
  | cons hstep _ ih => exact .cons hstep (ih hq)

/-- Paths through the first part are paths through a composition. -/
theorem Reaches.andThen {p p' : Program α} {steps : List Step} (h : p.Reaches steps p')
    (f : α → Program β) : (p.andThen f).Reaches steps (p'.andThen f) := by
  induction h with
  | refl => exact .refl _
  | cons hstep _ ih => exact .cons (hstep.andThen f) ih

/-- A run of a composition is a run of its first part and then one of its second. -/
theorem returns_bind_iff {p : Program α} {f : α → Program β} {steps : List Step} {value : β} :
    (p >>= f).Returns steps value ↔
      ∃ first between second, p.Returns first between ∧ (f between).Returns second value ∧
        steps = first ++ second := by
  constructor
  · intro h
    rcases reaches_bind h with ⟨p', hp, hdone⟩ | h
    · cases p' with
      | done between =>
        refine ⟨steps, between, [], hp, ?_, (List.append_nil steps).symm⟩
        rw [Program.andThen] at hdone
        rw [← hdone]
        exact .refl _
      | fetch | pause | now | record => cases hdone
    · exact h
  · rintro ⟨first, between, second, hfirst, hsecond, rfl⟩
    exact (hfirst.andThen f).append hsecond

/-- A program that is done takes no steps. -/
@[simp] theorem returns_pure_iff {value result : α} {steps : List Step} :
    (pure value : Program α).Returns steps result ↔ steps = [] ∧ result = value := by
  rw [Returns, pure_eq, reaches_done_iff, Program.done.injEq]

/-- A program that asks once and returns the answer has the runs of that one step. -/
private theorem returns_iff_of_does {p : Program α} (ask : α → Step)
    (hdoes : ∀ step q, p.Does step q ↔ ∃ answer, step = ask answer ∧ q = .done answer)
    {steps : List Step} {value : α} :
    p.Returns steps value ↔ steps = [ask value] := by
  constructor
  · intro h
    cases h with
    | refl => cases (hdoes (ask value) (.done value)).mpr ⟨value, rfl, rfl⟩
    | cons hstep hrest =>
      obtain ⟨answer, rfl, rfl⟩ := (hdoes _ _).mp hstep
      obtain ⟨rfl, hdone⟩ := reaches_done_iff.mp hrest
      rw [Program.done.injEq] at hdone
      rw [hdone]
  · rintro rfl
    exact .cons ((hdoes _ _).mpr ⟨value, rfl, rfl⟩) (.refl _)

@[simp] theorem returns_fetch_iff {call : Call} {steps : List Step}
    {answer : Except Error ByteArray} :
    (backend.fetch call).Returns steps answer ↔ steps = [.fetch call answer] := by
  refine returns_iff_of_does (.fetch call) fun step q => ⟨?_, ?_⟩
  · rintro ⟨⟩
    exact ⟨_, rfl, rfl⟩
  · rintro ⟨answer, rfl, rfl⟩
    exact .fetch call .done answer

@[simp] theorem returns_pause_iff {ms : Nat} {steps : List Step} {elapsed : Bool} :
    (backend.pause ms).Returns steps elapsed ↔ steps = [.pause ms elapsed] := by
  refine returns_iff_of_does (.pause ms) fun step q => ⟨?_, ?_⟩
  · rintro ⟨⟩
    exact ⟨_, rfl, rfl⟩
  · rintro ⟨elapsed, rfl, rfl⟩
    exact .pause ms .done elapsed

@[simp] theorem returns_now_iff {steps : List Step} {time : Nat} :
    backend.now.Returns steps time ↔ steps = [.now time] := by
  refine returns_iff_of_does .now fun step q => ⟨?_, ?_⟩
  · rintro ⟨⟩
    exact ⟨_, rfl, rfl⟩
  · rintro ⟨time, rfl, rfl⟩
    exact .now .done time

@[simp] theorem returns_record_iff {event : Event} {steps : List Step} {value : Unit} :
    (backend.record event).Returns steps value ↔ steps = [.record event] := by
  refine returns_iff_of_does (fun _ => .record event) fun step q => ⟨?_, ?_⟩
  · rintro ⟨⟩
    exact ⟨(), rfl, rfl⟩
  · rintro ⟨answer, rfl, rfl⟩
    exact .record event _

/-- The node that a step leads to. -/
def next? : Program α → Step → Option (Program α)
  | .fetch call next, .fetch made answer => if made = call then some (next answer) else none
  | .pause ms next, .pause waited elapsed => if waited = ms then some (next elapsed) else none
  | .now next, .now time => some (next time)
  | .record event next, .record noted => if noted = event then some next else none
  | _, _ => none

/-- The step that is computed is one that the program does. -/
theorem does_of_next? {p q : Program α} {step : Step} (h : p.next? step = some q) :
    p.Does step q := by
  rw [next?.eq_def] at h
  split at h
  · rename_i call next made answer
    by_cases hmade : made = call
    · rw [if_pos hmade, Option.some.injEq] at h
      rw [hmade, ← h]
      exact .fetch call next answer
    · simp [hmade] at h
  · rename_i ms next waited elapsed
    by_cases hwaited : waited = ms
    · rw [if_pos hwaited, Option.some.injEq] at h
      rw [hwaited, ← h]
      exact .pause ms next elapsed
    · simp [hwaited] at h
  · rw [Option.some.injEq] at h
    rw [← h]
    exact .now _ _
  · rename_i event next noted
    by_cases hnoted : noted = event
    · rw [if_pos hnoted, Option.some.injEq] at h
      rw [hnoted, ← h]
      exact .record event next
    · simp [hnoted] at h
  · cases h

/-- The result of the path with these steps, where there is one that ends in a result. -/
def follow : List Step → Program α → Option α
  | [], .done value => some value
  | [], _ => none
  | step :: steps, p => (p.next? step).bind (follow steps)

/-- A path that can be followed to a result is a run. -/
theorem returns_of_follow {p : Program α} {steps : List Step} {value : α}
    (h : p.follow steps = some value) : p.Returns steps value := by
  induction steps generalizing p with
  | nil =>
    cases p with
    | done last =>
      rw [follow, Option.some.injEq] at h
      rw [h]
      exact .refl _
    | fetch | pause | now | record => cases h
  | cons step steps ih =>
    rw [follow, Option.bind_eq_some_iff] at h
    obtain ⟨q, hq, hrest⟩ := h
    exact .cons (does_of_next? hq) (ih hrest)

/-- Every call that a program can make, whatever it is answered, satisfies `P`. -/
def OnlyCalls (P : Call → Prop) : Program α → Prop
  | .done _ => True
  | .fetch call next => P call ∧ ∀ answer, (next answer).OnlyCalls P
  | .pause _ next => ∀ elapsed, (next elapsed).OnlyCalls P
  | .now next => ∀ time, (next time).OnlyCalls P
  | .record _ next => next.OnlyCalls P

/-- The calls of a composition are those of its two parts. -/
theorem OnlyCalls.bind {P : Call → Prop} {p : Program α} {f : α → Program β}
    (hp : p.OnlyCalls P) (hf : ∀ value, (f value).OnlyCalls P) : (p >>= f).OnlyCalls P := by
  rw [bind_eq]
  induction p with
  | done value => exact hf value
  | fetch call next ih => exact ⟨hp.1, fun answer => ih answer (hp.2 answer)⟩
  | pause ms next ih => exact fun elapsed => ih elapsed (hp elapsed)
  | now next ih => exact fun time => ih time (hp time)
  | record event next ih => exact ih hp

/-- Calls that are of one kind are of any wider one. -/
theorem OnlyCalls.mono {P Q : Call → Prop} {p : Program α} (hp : p.OnlyCalls P)
    (hPQ : ∀ call, P call → Q call) : p.OnlyCalls Q := by
  induction p with
  | done value => exact trivial
  | fetch call next ih => exact ⟨hPQ call hp.1, fun answer => ih answer (hp.2 answer)⟩
  | pause ms next ih => exact fun elapsed => ih elapsed (hp elapsed)
  | now next ih => exact fun time => ih time (hp time)
  | record event next ih => exact ih hp

/-- The calls met along any path, one that is given up included. -/
theorem OnlyCalls.of_reaches {P : Call → Prop} {p q : Program α} {steps : List Step}
    (hp : p.OnlyCalls P) (h : p.Reaches steps q) {call : Call} {answer : Except Error ByteArray}
    (hmem : Step.fetch call answer ∈ steps) : P call := by
  induction h with
  | refl => cases hmem
  | cons hstep _ ih =>
    rcases List.mem_cons.mp hmem with rfl | hmem
    · cases hstep with
      | fetch => exact hp.1
    · refine ih ?_ hmem
      cases hstep with
      | fetch call next answer => exact hp.2 answer
      | pause ms next elapsed => exact hp elapsed
      | now next time => exact hp time
      | record event next => exact hp

end Program

/-- What is picked from some moves, with one more at the end. -/
theorem filterMap_append_singleton {α β : Type} (f : α → Option β) (xs : List α) (x : α) :
    (xs ++ [x]).filterMap f = xs.filterMap f ++ (f x).toList := by
  rw [List.filterMap_append]
  cases hx : f x <;> simp [hx]

/-- What is so at first, and stays so with every move that can be made, is so after all of them. -/
theorem holds_of_foldlM {σ μ : Type} {make? : σ → μ → Option σ} {holds : List μ → σ → Prop}
    (hmake : ∀ moves s move t, holds moves s → make? s move = some t → holds (moves ++ [move]) t)
    {before moves : List μ} {s t : σ} (hbefore : holds before s)
    (h : moves.foldlM make? s = some t) : holds (before ++ moves) t := by
  induction moves generalizing before s with
  | nil =>
    rw [List.foldlM_nil, Option.pure_def, Option.some.injEq] at h
    rw [List.append_nil, ← h]
    exact hbefore
  | cons move moves ih =>
    rw [List.foldlM_cons, Option.bind_eq_bind, Option.bind_eq_some_iff] at h
    obtain ⟨between, hmove, hrest⟩ := h
    have hafter := ih (hmake before s move between hbefore hmove) hrest
    rw [List.append_assoc, List.singleton_append] at hafter
    exact hafter

end ChunkedFile
