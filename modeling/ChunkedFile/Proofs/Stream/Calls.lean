import ChunkedFile.Proofs.Stream.Integrity

/-!
# Calls on an opened range

A range is read through its stream and released through what it holds on to. It holds on to its
session exactly as long as the session is open, so a release closes the session once and is idle
from then on, as a close is.
-/

namespace ChunkedFile

section Answers

variable {m : Type → Type} [Monad m] {σ τ : Type}

/-- What calls answer, one after the other, on something that changes with each. -/
def answersBy (perform : σ → Operation → m (Answer × σ)) : List Operation → σ → m (List Answer)
  | [], _ => return []
  | op :: ops, s => do
    let (answer, next) ← perform s op
    let later ← answersBy perform ops next
    return answer :: later

/-- Where each call on related things goes the same way and leaves them related, no calls tell them
apart. -/
theorem answersBy_eq [LawfulMonad m] {perform : σ → Operation → m (Answer × σ)}
    {other : τ → Operation → m (Answer × τ)} (related : σ → τ → Prop)
    (hcall : ∀ s t op, related s t → ∀ f g : _ → m (List Answer),
      (∀ answer u v, related u v → f (answer, u) = g (answer, v)) →
      perform s op >>= f = other t op >>= g)
    {s : σ} {t : τ} (h : related s t) (ops : List Operation) :
    answersBy perform ops s = answersBy other ops t := by
  induction ops generalizing s t with
  | nil => rfl
  | cons op ops ih =>
    rw [answersBy, answersBy]
    refine hcall s t op h _ _ fun answer u v huv => ?_
    simp only [ih huv]

end Answers

namespace Opened

variable {m : Type → Type} [Monad m] {opened : Opened}

/-- A call on an opened range: a read of its stream, or a release. -/
def perform (backend : Backend m) (opened : Opened) : Operation → m (Answer × Opened)
  | .read n => do
    let (result, stream) ← opened.stream.read backend n
    return (.read result, { opened with stream })
  | .close => do
    let (verdict, opened) ← opened.release backend
    return (.close verdict, opened)

/-- A range holds on to its session as long as that is open. -/
def Holds (opened : Opened) : Prop :=
  opened.releases = if opened.stream.session.closed then {} else ReleaseSet.add {} .session

/-- A range that holds on to nothing is released at once. -/
theorem release_of_released [LawfulMonad m] (backend : Backend m) (stream : RangeStream) :
    release backend ⟨stream, {}⟩ = pure (.ok (), ⟨stream, {}⟩) := by
  simp only [release, ReleaseSet.release, ReleaseSet.takeAll, ReleaseSet.releaseEach,
    StateT.run_bind, StateT.run_modifyGet, StateT.run_pure, pure_bind]

/-- A release closes the session, and holds on to it no more. -/
theorem Holds.release_eq [LawfulMonad m] (h : opened.Holds) (backend : Backend m) :
    opened.release backend = do
      let (verdict, session) ← opened.stream.session.close backend
      return (verdict, ⟨{ opened.stream with session }, {}⟩) := by
  obtain ⟨stream, releases⟩ := opened
  cases hclosed : stream.session.closed with
  | false =>
    obtain rfl : releases = ReleaseSet.add {} .session := by simpa [Holds, hclosed] using h
    exact Opened.release_eq backend stream
  | true =>
    obtain rfl : releases = {} := by simpa [Holds, hclosed] using h
    simp only [release_of_released, Session.close, hclosed, if_true, pure_bind]

end Opened

end ChunkedFile
