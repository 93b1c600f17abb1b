import Mathlib.Data.List.Flatten
import Mathlib.Data.List.Nodup
import ChunkedFile.Release
import ChunkedFile.Proofs.Run.Program

/-!
# Releases that overlap

A release call takes all that waits out of the set at once and then releases one resource after the
other. While it waits for a resource, resources are added to the set and other release calls are
made, through any clone of the set, which is the same set. Every registration is taken by one call,
the first that comes after it, so it is released once and no call depends on what the others do.
-/

namespace ChunkedFile

namespace ReleaseSet

variable {α β γ : Type}

/-- A computation that waits for resources to be released. As long as it is inside one, the set is
left to others; it goes on with what the release of the resource came to and with the set as it is
then. -/
inductive Waiting (α β : Type) : Type where
  | done (value : β)
  | inside (resource : α) (set : ReleaseSet α)
      (next : Except Error Unit → ReleaseSet α → Waiting α β)

namespace Waiting

/-- Goes on with `f` where a computation is done. -/
def andThen (f : β → Waiting α γ) : Waiting α β → Waiting α γ
  | .done value => f value
  | .inside resource set next => .inside resource set fun result set => (next result set).andThen f

instance : Monad (Waiting α) where
  pure := .done
  bind p f := p.andThen f

/-- Going on with nothing changes nothing. -/
theorem andThen_done (p : Waiting α β) : p.andThen .done = p := by
  induction p with
  | done value => rfl
  | inside resource set next ih => simp only [andThen, ih]

/-- What a computation goes on with may itself be composed. -/
theorem andThen_assoc {δ : Type} (p : Waiting α β) (f : β → Waiting α γ) (g : γ → Waiting α δ) :
    (p.andThen f).andThen g = p.andThen fun value => (f value).andThen g := by
  induction p with
  | done value => rfl
  | inside resource set next ih => simp only [andThen, ih]

end Waiting

/-- Releases a resource by waiting for it. -/
def await (resource : α) : StateT (ReleaseSet α) (Waiting α) (Except Error Unit) :=
  fun set => .inside resource set fun result set => .done (result, set)

/-- The first failure among some results. -/
def firstFailure (results : List (Except Error Unit)) : Except Error Unit :=
  (results.find? fun result => result matches .error _).getD (.ok ())

theorem firstFailure_append_ok (results : List (Except Error Unit)) :
    firstFailure (results ++ [.ok ()]) = firstFailure results := by
  rw [firstFailure, List.find?_append]
  cases hfind : results.find? fun result => result matches .error _ <;> simp [firstFailure, hfind]

/-- A result and what comes after it may be taken together. -/
theorem firstFailure_append_pair (results : List (Except Error Unit))
    (first others : Except Error Unit) :
    firstFailure (results ++ [first] ++ [others]) =
      firstFailure (results ++ [match first with | .error e => .error e | .ok () => others]) := by
  simp only [firstFailure, List.find?_append]
  cases first <;> cases others <;> simp

/-- What a release has left to do: resources that it has still to release, after some results. -/
def left (results : List (Except Error Unit)) (resources : List α) (set : ReleaseSet α) :
    Waiting α (Except Error Unit × ReleaseSet α) :=
  ((releaseEach await resources).run set).andThen fun (others, set) =>
    .done (firstFailure (results ++ [others]), set)

/-- A release that has nothing left tells the first failure. -/
theorem left_nil (results : List (Except Error Unit)) (set : ReleaseSet α) :
    left results [] set = .done (firstFailure results, set) := by
  rw [← firstFailure_append_ok]
  rfl

/-- A release waits for the next resource and goes on to the others whatever that comes to. -/
theorem left_cons (results : List (Except Error Unit)) (resource : α) (rest : List α)
    (set : ReleaseSet α) :
    left results (resource :: rest) set =
      .inside resource set fun result set => left (results ++ [result]) rest set := by
  have hrun : (releaseEach await (resource :: rest)).run set =
      .inside resource set fun result set => ((releaseEach await rest).run set).andThen
        fun (others, set) =>
          .done (match result with | .error e => .error e | .ok () => others, set) := rfl
  rw [left, hrun, Waiting.andThen]
  congr
  funext result set
  rw [Waiting.andThen_assoc, left]
  congr
  funext outcome
  obtain ⟨others, set⟩ := outcome
  simp only [Waiting.andThen, firstFailure_append_pair]

/-- A release takes all that waits, leaves the set empty, and has all of it left to release. -/
theorem release_await (set : ReleaseSet α) :
    (release await).run set = left [] set.pending {} := by
  have hrun : (release await).run set = (releaseEach await set.pending).run {} := rfl
  have hfirst (others : Except Error Unit) : firstFailure [others] = others := by
    cases others <;> rfl
  rw [hrun, left]
  simp only [List.nil_append, hfirst]
  exact (Waiting.andThen_done _).symm

/-- A release call. Resources are known by the number of their registration. -/
structure Visit where
  /-- What was in the set when the call began. -/
  taken : List Nat
  /-- What is released, with the results. -/
  freed : List (Nat × Except Error Unit) := []
  /-- What is left to do. -/
  work : Waiting Nat (Except Error Unit × ReleaseSet Nat)

/-- A set on which calls are made. -/
structure Traffic where
  /-- The number of registrations. -/
  count : Nat := 0
  set : ReleaseSet Nat := {}
  /-- The release calls in the order in which they began. -/
  visits : List Visit := []

/-- What can happen on a set. -/
inductive Move where
  /-- A resource is added. -/
  | add
  /-- A release call begins. -/
  | begin
  /-- The resource that the given release call is inside of is released. -/
  | free (visit : Nat) (result : Except Error Unit)
  deriving DecidableEq

/-- The set as a computation leaves it to others. -/
def Waiting.handed : Waiting α (β × ReleaseSet α) → ReleaseSet α
  | .done (_, set) => set
  | .inside _ set _ => set

/-- The registrations whose release a call has begun: those that are released and the one that the
call is inside of. -/
def Visit.begun (visit : Visit) : List Nat :=
  visit.freed.map Prod.fst ++ match visit.work with
    | .done _ => []
    | .inside resource _ _ => [resource]

/-- What a call has returned. -/
def Visit.verdict? (visit : Visit) : Option (Except Error Unit) :=
  match visit.work with
  | .done (verdict, _) => some verdict
  | .inside .. => none

namespace Traffic

/-- What comes of something, where it can happen. -/
def make? (s : Traffic) : Move → Option Traffic
  | .add => some { s with count := s.count + 1, set := s.set.add s.count }
  | .begin =>
    let work := (release await).run s.set
    some { s with set := work.handed, visits := s.visits ++ [{ taken := s.set.pending, work }] }
  | .free i result =>
    match s.visits[i]? with
    | some ⟨taken, freed, .inside resource _ next⟩ =>
      let work := next result s.set
      let visit : Visit := { taken, freed := freed ++ [(resource, result)], work }
      some { s with set := work.handed, visits := s.visits.set i visit }
    | _ => none

/-- What comes of a run, where all of it can happen. -/
def follow (moves : List Move) : Option Traffic := moves.foldlM make? {}

end Traffic

/-- The set is left to others as it is, whatever is still to be released. -/
theorem handed_left (results : List (Except Error Unit)) (resources : List α) (set : ReleaseSet α) :
    (left results resources set).handed = set := by
  cases resources with
  | nil => rw [left_nil, Waiting.handed]
  | cons resource rest => rw [left_cons, Waiting.handed]

/-- A call has released some of what it took, in order, and has the others left whatever these came
to. -/
def Visit.Sound (visit : Visit) : Prop :=
  ∃ resources set, visit.taken = visit.freed.map Prod.fst ++ resources ∧
    visit.work = left (visit.freed.map Prod.snd) resources set

namespace Visit.Sound

variable {visit : Visit} {taken : List Nat} {freed : List (Nat × Except Error Unit)}
  {resource : Nat} {set : ReleaseSet Nat} {next : Except Error Unit → ReleaseSet Nat →
    Waiting Nat (Except Error Unit × ReleaseSet Nat)}

/-- A call that begins has all left. -/
theorem begin (set : ReleaseSet Nat) :
    Visit.Sound { taken := set.pending, work := (release await).run set } :=
  ⟨set.pending, {}, rfl, release_await set⟩

/-- A call goes on to the next resource with whatever the one before came to. -/
theorem free (h : Visit.Sound ⟨taken, freed, .inside resource set next⟩)
    (result : Except Error Unit) (now : ReleaseSet Nat) :
    Visit.Sound ⟨taken, freed ++ [(resource, result)], next result now⟩ ∧
      (next result now).handed = now := by
  obtain ⟨resources, before, htaken, hwork⟩ := h
  dsimp only at htaken hwork
  cases resources with
  | nil =>
    rw [left_nil] at hwork
    cases hwork
  | cons first rest =>
    rw [left_cons] at hwork
    obtain ⟨rfl, rfl, rfl⟩ := Waiting.inside.inj hwork
    refine ⟨⟨rest, now, ?_, ?_⟩, handed_left _ rest now⟩
    · simpa using htaken
    · simp

/-- Releases are begun in the order of the registrations. -/
theorem prefix_taken (h : visit.Sound) : visit.begun <+: visit.taken := by
  obtain ⟨resources, set, htaken, hwork⟩ := h
  rw [htaken, begun, hwork]
  cases resources with
  | nil => simp [left_nil]
  | cons resource rest =>
    rw [left_cons]
    exact List.prefix_append_right_inj _ |>.mpr (List.prefix_append [resource] rest)

/-- A call returns once all that it took is released, and tells the first failure. -/
theorem returns (h : visit.Sound) :
    (visit.verdict?.isSome ↔ visit.freed.map Prod.fst = visit.taken) ∧
      ∀ verdict, visit.verdict? = some verdict →
        verdict = firstFailure (visit.freed.map Prod.snd) := by
  obtain ⟨resources, set, htaken, hwork⟩ := h
  cases resources with
  | nil =>
    rw [left_nil] at hwork
    simp [verdict?, hwork, htaken]
  | cons resource rest =>
    rw [left_cons] at hwork
    simp [verdict?, hwork, htaken]

end Visit.Sound

namespace Traffic

variable {s t : Traffic} {move : Move} {moves : List Move}

/-- Every registration was taken by one call or still waits. -/
structure Sound (s : Traffic) : Prop where
  visits : ∀ visit ∈ s.visits, visit.Sound
  shared : (s.visits.map Visit.taken).flatten ++ s.set.pending = List.range s.count

/-- What a call took does not change when it goes on. -/
theorem map_taken_set {i : Nat} {visit next : Visit} (hvisit : s.visits[i]? = some visit)
    (hsame : next.taken = visit.taken) :
    (s.visits.set i next).map Visit.taken = s.visits.map Visit.taken := by
  obtain ⟨hi, rfl⟩ := List.getElem?_eq_some_iff.mp hvisit
  have hlength : i < (s.visits.map Visit.taken).length := by rwa [List.length_map]
  rw [List.map_set, hsame, ← List.getElem_map Visit.taken (h := hlength), List.set_getElem_self]

/-- A release call that goes on takes nothing more and leaves the set as it is. -/
theorem Sound.free {i : Nat} {result : Except Error Unit} (h : s.Sound)
    (hmake : s.make? (.free i result) = some t) :
    (∀ visit ∈ t.visits, visit.Sound) ∧ t.count = s.count ∧ t.set = s.set ∧
      t.visits.map Visit.taken = s.visits.map Visit.taken := by
  simp only [make?] at hmake
  split at hmake
  · rename_i taken freed resource set next hvisit
    cases hmake
    obtain ⟨hnext, hhanded⟩ := (h.visits _ (List.mem_of_getElem? hvisit)).free result s.set
    refine ⟨?_, rfl, hhanded, map_taken_set hvisit rfl⟩
    intro visit hmem
    rcases List.mem_or_eq_of_mem_set hmem with hmem | rfl
    · exact h.visits visit hmem
    · exact hnext
  · cases hmake

/-- Whatever happens, each registration is taken once. -/
theorem Sound.make (h : s.Sound) (hmake : s.make? move = some t) : t.Sound := by
  cases move with
  | add =>
    cases hmake
    refine ⟨h.visits, ?_⟩
    simp only [ReleaseSet.add, List.range_succ, ← h.shared, List.append_assoc]
  | begin =>
    cases hmake
    refine ⟨?_, ?_⟩
    · intro visit hvisit
      rcases List.mem_append.mp hvisit with hvisit | hvisit
      · exact h.visits visit hvisit
      · rw [List.mem_singleton.mp hvisit]
        exact .begin s.set
    · simp [release_await, handed_left, ← h.shared]
  | free i result =>
    obtain ⟨hvisits, hcount, hset, htaken⟩ := h.free hmake
    refine ⟨hvisits, ?_⟩
    rw [hcount, hset, htaken]
    exact h.shared

/-- What was registered and what was taken stays so, and what waits was there or came meanwhile. -/
structure Continues (s : Traffic) (moves : List Move) (t : Traffic) : Prop where
  sound : t.Sound
  count : t.count = s.count + moves.count .add
  taken : s.visits.map Visit.taken <+: t.visits.map Visit.taken
  length : t.visits.length = s.visits.length + moves.count .begin
  waits : ∀ number ∈ t.set.pending, number ∈ s.set.pending ∨ s.count ≤ number
  /-- Without another release call nothing is taken. -/
  untouched : .begin ∉ moves →
    t.set.pending = s.set.pending ++ List.range' s.count (moves.count .add)

theorem Continues.refl (h : s.Sound) : s.Continues [] s :=
  ⟨h, rfl, List.prefix_refl _, rfl, fun _ => Or.inl, fun _ => (List.append_nil _).symm⟩

/-- Another move can be made at the end. -/
theorem Continues.make {u : Traffic} (h : s.Continues moves t) (hmake : t.make? move = some u) :
    s.Continues (moves ++ [move]) u := by
  obtain ⟨hsound, hcount, htaken, hlength, hwaits, huntouched⟩ := h
  have hnext := hsound.make hmake
  cases move with
  | add =>
    cases hmake
    refine ⟨hnext, by simp [hcount, Nat.add_assoc], htaken, by simp [hlength], ?_, ?_⟩
    · intro number hnumber
      rcases List.mem_append.mp hnumber with hnumber | hnumber
      · exact hwaits number hnumber
      · exact Or.inr (by rw [List.mem_singleton.mp hnumber]; omega)
    · intro hnone
      have hbefore := huntouched fun hmem => hnone (List.mem_append_left _ hmem)
      simp [ReleaseSet.add, hbefore, hcount, List.range'_concat]
  | begin =>
    cases hmake
    refine ⟨hnext, by simp [hcount], ?_, by simp [hlength, Nat.add_assoc], ?_, ?_⟩
    · rw [List.map_append]
      exact htaken.trans (List.prefix_append _ _)
    · intro number hnumber
      simp [release_await, handed_left] at hnumber
    · intro hnone
      simp at hnone
  | free i result =>
    obtain ⟨-, hcount', hset, htaken'⟩ := hsound.free hmake
    have hlength' : u.visits.length = t.visits.length := by
      simpa using congrArg List.length htaken'
    refine ⟨hnext, ?_, ?_, ?_, ?_, ?_⟩
    · simp [hcount', hcount]
    · rwa [htaken']
    · simp [hlength', hlength]
    · rwa [hset]
    · intro hnone
      have hbefore := huntouched fun hmem => hnone (List.mem_append_left _ hmem)
      simp [hset, hbefore]

/-- A run goes on from where the moves before it led. -/
theorem continues_of_foldlM (h : s.Sound) (hrun : moves.foldlM make? s = some t) :
    s.Continues moves t := by
  have hmake (moves : List Move) (u : Traffic) (move : Move) (v : Traffic)
      (hthere : s.Continues moves u) (hmake : u.make? move = some v) :
      s.Continues (moves ++ [move]) v := hthere.make hmake
  exact holds_of_foldlM hmake (.refl h) hrun

/-- What a run comes to is sound. -/
theorem continues_of_follow (h : follow moves = some s) : Continues {} moves s :=
  continues_of_foldlM ⟨fun _ hvisit => absurd hvisit List.not_mem_nil, rfl⟩ h

/-- A release call that begins takes all that waits. -/
theorem of_begin (hmake : s.make? .begin = some t) :
    t.count = s.count ∧ t.set = {} ∧
      t.visits.map Visit.taken = s.visits.map Visit.taken ++ [s.set.pending] := by
  cases hmake
  simp [release_await, handed_left]

/-- Moves can be followed in two parts. -/
theorem follow_append {before : List Move} (h : follow (before ++ moves) = some s) :
    ∃ t, follow before = some t ∧ moves.foldlM make? t = some s := by
  rwa [follow, List.foldlM_append, Option.bind_eq_bind, Option.bind_eq_some_iff] at h

theorem follow_begin {before : List Move} (h : follow (before ++ .begin :: moves) = some s) :
    ∃ t u, follow before = some t ∧ t.make? .begin = some u ∧ u.Continues moves s := by
  obtain ⟨t, ht, h⟩ := follow_append h
  rw [List.foldlM_cons, Option.bind_eq_bind, Option.bind_eq_some_iff] at h
  obtain ⟨u, hu, h⟩ := h
  have hsound := (continues_of_follow ht).sound.make hu
  exact ⟨t, u, ht, hu, continues_of_foldlM hsound h⟩

/-- Right after a release call has begun, and at first, nothing waits. -/
theorem pending_eq_nil (h : follow moves = some s)
    (hlast : moves = [] ∨ ∃ earlier, moves = earlier ++ [.begin]) : s.set.pending = [] := by
  rcases hlast with rfl | ⟨earlier, rfl⟩
  · cases h
    rfl
  · obtain ⟨t, u, -, hu, hsame⟩ := follow_begin h
    have hwaits := hsame.untouched List.not_mem_nil
    rw [(of_begin hu).2.1] at hwaits
    exact hwaits

/-- A release call takes what was registered since the one before it. -/
theorem taken_of_follow {before between after : List Move}
    (h : follow (before ++ between ++ .begin :: after) = some s)
    (hbefore : before = [] ∨ ∃ earlier, before = earlier ++ [.begin])
    (hbetween : .begin ∉ between) :
    ∃ visit, s.visits[(before ++ between).count .begin]? = some visit ∧
      visit.taken = List.range' (before.count .add) (between.count .add) := by
  obtain ⟨t, u, ht, hu, hafter⟩ := follow_begin h
  obtain ⟨r, hr, hrun⟩ := follow_append ht
  have hfirst := continues_of_follow hr
  have hnext := continues_of_foldlM hfirst.sound hrun
  have hpending : t.set.pending = List.range' (before.count .add) (between.count .add) := by
    rw [hnext.untouched hbetween, pending_eq_nil hr hbefore, hfirst.count]
    simp
  have hlength : (t.visits.map Visit.taken).length = (before ++ between).count .begin := by
    rw [List.length_map, (continues_of_follow ht).length]
    simp
  have htaken : (u.visits.map Visit.taken)[(before ++ between).count .begin]? =
      some t.set.pending := by
    rw [(of_begin hu).2.2, ← hlength]
    exact List.getElem?_concat_length
  obtain ⟨others, hothers⟩ := hafter.taken
  have hstays : (s.visits.map Visit.taken)[(before ++ between).count .begin]? =
      some t.set.pending := by
    rw [← hothers, List.getElem?_append_left (List.getElem?_eq_some_iff.mp htaken).1, htaken]
  rw [List.getElem?_map, Option.map_eq_some_iff, hpending] at hstays
  exact hstays

/-- The registrations whose release was begun, by any call. -/
def begun (s : Traffic) : List Nat := s.visits.flatMap Visit.begun

/-- The registrations that are released, by any call. -/
def released (s : Traffic) : List Nat := s.visits.flatMap fun visit => visit.freed.map Prod.fst

/-- What calls have begun to release was taken by them. -/
theorem Sound.begun_sublist (h : s.Sound) : s.begun.Sublist (List.range s.count) := by
  have hsublist : s.begun.Sublist (s.visits.map Visit.taken).flatten := by
    rw [begun, ← List.flatMap_def]
    exact List.Sublist.flatMap_right s.visits fun visit hvisit =>
      (h.visits visit hvisit).prefix_taken.sublist
  rw [← h.shared]
  exact hsublist.trans (List.sublist_append_left _ _)

/-- Where all calls have returned, all is released but what waits. -/
theorem Sound.released_append_pending (h : s.Sound)
    (hreturned : ∀ visit ∈ s.visits, visit.verdict?.isSome) :
    s.released ++ s.set.pending = List.range s.count := by
  have hall (visit : Visit) (hvisit : visit ∈ s.visits) :
      visit.freed.map Prod.fst = visit.taken :=
    (h.visits visit hvisit).returns.1.mp (hreturned visit hvisit)
  rw [released, List.flatMap_def, List.map_congr_left hall, h.shared]

/-- A resource that was added before a release call began is released once, if all calls return. -/
theorem count_released {before after : List Move} {number : Nat}
    (h : follow (before ++ .begin :: after) = some s)
    (hreturned : ∀ visit ∈ s.visits, visit.verdict?.isSome) (hnumber : number < before.count .add) :
    s.released.count number = 1 := by
  obtain ⟨t, u, ht, hu, hafter⟩ := follow_begin h
  have hcount : u.count = before.count .add := by
    rw [(of_begin hu).1, (continues_of_follow ht).count, Nat.zero_add]
  have hwaits : number ∉ s.set.pending := by
    intro hmem
    rcases hafter.waits number hmem with hmem | hlate
    · rw [(of_begin hu).2.1] at hmem
      exact List.not_mem_nil hmem
    · omega
  have hmem : number ∈ List.range s.count := by
    rw [List.mem_range, hafter.count, hcount]
    omega
  have honce := List.count_eq_one_of_mem List.nodup_range hmem
  rwa [← hafter.sound.released_append_pending hreturned, List.count_append,
    List.count_eq_zero_of_not_mem hwaits, Nat.add_zero] at honce

/-- However calls overlap, no release of a registration is begun twice, and each registration that a
release call comes after is released once when all calls have returned. Each call releases what was
registered since the call before it, in that order; it returns once the last is released, whatever
the releases came to, and tells the first failure. -/
theorem released_once (h : follow moves = some s) :
    (∀ number, s.begun.count number ≤ 1) ∧
    (∀ before after, moves = before ++ .begin :: after →
      (∀ visit ∈ s.visits, visit.verdict?.isSome) →
      ∀ number < before.count .add, s.released.count number = 1) ∧
    ∀ before between after, moves = before ++ between ++ .begin :: after →
      (before = [] ∨ ∃ earlier, before = earlier ++ [.begin]) → .begin ∉ between →
      ∃ visit, s.visits[(before ++ between).count .begin]? = some visit ∧
        visit.begun <+: List.range' (before.count .add) (between.count .add) ∧
        (visit.verdict?.isSome ↔
          visit.freed.map Prod.fst = List.range' (before.count .add) (between.count .add)) ∧
        ∀ verdict, visit.verdict? = some verdict →
          verdict = firstFailure (visit.freed.map Prod.snd) := by
  have hsound := (continues_of_follow h).sound
  refine ⟨?_, ?_, ?_⟩
  · intro number
    exact Nat.le_trans (hsound.begun_sublist.count_le number)
      (List.nodup_iff_count_le_one.mp List.nodup_range number)
  · rintro before after rfl hreturned number hnumber
    exact count_released h hreturned hnumber
  · rintro before between after rfl hbefore hbetween
    obtain ⟨visit, hvisit, htaken⟩ := taken_of_follow h hbefore hbetween
    have hcall := hsound.visits visit (List.mem_of_getElem? hvisit)
    rw [← htaken]
    exact ⟨visit, hvisit, hcall.prefix_taken, hcall.returns.1, hcall.returns.2⟩

/-- A second call begins while the first is inside a resource that will fail; a resource is added
meanwhile. -/
def overlapping : List Move :=
  [.add, .add, .begin, .add, .free 0 (.error .sessionClosed), .begin, .free 1 (.ok ()),
    .free 0 (.ok ())]

/-- Both calls return, the first with the failure, and the three resources are released. -/
theorem released_once_overlapping : ∃ s, follow overlapping = some s ∧
    s.visits.map (fun visit => (visit.freed.map Prod.fst, visit.verdict?)) =
      [([0, 1], some (.error .sessionClosed)), ([2], some (.ok ()))] ∧
    (∀ number, s.begun.count number ≤ 1) ∧ ∀ number < 3, s.released.count number = 1 := by
  obtain ⟨s, hs⟩ : ∃ s, follow overlapping = some s := ⟨_, rfl⟩
  have hvisits : (follow overlapping).map (fun s => s.visits.map fun visit =>
      (visit.freed.map Prod.fst, visit.verdict?)) =
        some [([0, 1], some (.error .sessionClosed)), ([2], some (.ok ()))] := rfl
  rw [hs, Option.map_some, Option.some.injEq] at hvisits
  have hreturned : ∀ visit ∈ s.visits, visit.verdict?.isSome := by
    intro visit hvisit
    have hmem := List.mem_map_of_mem (f := fun visit => (visit.freed.map Prod.fst, visit.verdict?))
      hvisit
    rw [hvisits] at hmem
    rcases List.mem_pair.mp hmem with heq | heq <;> rw [(Prod.mk.inj heq).2] <;> rfl
  obtain ⟨honce, hall, -⟩ := released_once hs
  exact ⟨s, hs, hvisits, honce,
    hall (overlapping.take 5) (overlapping.drop 6) rfl hreturned⟩

end Traffic

end ReleaseSet

end ChunkedFile
