import ChunkedFile.Proofs.Session.Alike
import ChunkedFile.Proofs.Stream.Reads

/-!
# Reads that fail

A read that fails may have moved the cursor over empty chunks, so it does not always leave the
stream as it was. It leaves it alike: no calls that follow, over any backend, can tell whether the
failed read was made.
-/

namespace ChunkedFile

namespace RangeStream

variable {stream next : RangeStream} {n : Nat} {steps : List Step} {e : Error}
  {turns : List Turn} {first : Session}

section Calls

variable {m : Type → Type} [Monad m] (backend : Backend m)

/-- A call on a stream: a read of its range, or a close of its session. -/
def perform (stream : RangeStream) : Operation → m (Answer × RangeStream)
  | .read n => do
    let (result, next) ← stream.read backend n
    return (.read result, next)
  | .close => do
    let (verdict, session) ← stream.session.close backend
    return (.close verdict, { stream with session })

/-- What calls on a stream answer, one after the other. -/
def answers : List Operation → RangeStream → m (List Answer)
  | [], _ => return []
  | op :: ops, stream => do
    let (answer, next) ← stream.perform backend op
    let later ← answers ops next
    return answer :: later

end Calls

/-- Streams over alike sessions with as much of the range before them. -/
structure Alike (stream next : RangeStream) : Prop where
  session : stream.session.Alike next.session
  remaining : stream.remaining = next.remaining

namespace Alike

variable {m : Type → Type} [Monad m] [LawfulMonad m] {β : Type} (backend : Backend m)

/-- A call on alike streams goes the same way. -/
theorem bind_perform (h : stream.Alike next) (op : Operation) {f g : Answer × RangeStream → m β}
    (hfg : ∀ answer u v, u.Alike v → f (answer, u) = g (answer, v)) :
    stream.perform backend op >>= f = next.perform backend op >>= g := by
  have hremaining := h.remaining
  cases op with
  | read n =>
    by_cases hused : next.remaining = some 0
    · rw [hused] at hremaining
      simp [perform, RangeStream.read, hremaining, hused, hfg _ _ _ h]
    · have hlimit : stream.limit n = next.limit n := by rw [limit, hremaining, limit]
      simp only [perform, RangeStream.read, hremaining, if_neg hused, hlimit, bind_assoc]
      refine h.session.bind_read backend fun result u v huv => ?_
      have hconsume (k : Nat) : (stream.consume u k).Alike (next.consume v k) :=
        ⟨huv, by rw [consume, hremaining, consume]⟩
      cases result with
      | error e => simp [hfg _ _ _ (hconsume 0)]
      | ok bytes => simp [hfg _ _ _ (hconsume bytes.size)]
  | close =>
    simp only [perform, bind_assoc, pure_bind]
    exact h.session.bind_close backend fun verdict u v huv => hfg _ _ _ ⟨huv, hremaining⟩

/-- No calls tell alike streams apart. -/
theorem answers_eq (h : stream.Alike next) (ops : List Operation) :
    stream.answers backend ops = next.answers backend ops := by
  induction ops generalizing stream next with
  | nil => rfl
  | cons op ops ih =>
    rw [answers, answers]
    refine h.bind_perform backend op fun answer u v huv => ?_
    simp only [ih huv]

end Alike

/-- A read of an open stream that fails moves the cursor at most, and no later calls tell whether it
was made: over every backend they ask for the same, count the same and answer the same. -/
theorem failed_read_unnoticed (hbuilt : first.Built) (hturns : first.Turns turns stream.session)
    (hopen : stream.session.closed = false)
    (hread : (stream.read Program.backend n).Returns steps (.error e, next)) :
    e.FailsRead ∧
    next = { stream with session := { stream.session with cursor := next.session.cursor } } ∧
    next.session.position = stream.session.position ∧
    ∀ (m : Type → Type) [Monad m] [LawfulMonad m] (backend : Backend m) (ops : List Operation),
      next.answers backend ops = stream.answers backend ops := by
  have hstands := hturns.stands hbuilt.fresh.stands hopen
  rcases read_returns hread with ⟨-, -, hresult, -⟩ | ⟨-, session, hrun, hnext⟩
  · cases hresult
  have hremaining : next.remaining = stream.remaining := by
    rw [hnext]
    simp [consume, bytesOf]
  have hsession : next.session = stream.session.settle := by
    rw [hnext]
    exact hrun.eq_settle_of_error hopen
  -- a skip lies inside the chunk at the cursor, so settling passes empty chunks and nothing else
  have hskip := hstands.settle.2.1
  have halike : next.Alike stream := ⟨hsession ▸ stream.session.alike_settle, hremaining⟩
  refine ⟨hrun.failsRead hstands hopen, ?_, ?_,
    fun m _ _ backend ops => halike.answers_eq backend ops⟩
  · cases next with
    | mk session remaining =>
      subst hsession hremaining
      congr
      rw [Session.settle_eq, hskip]
  · rw [hsession, Session.position, Session.settle_start, Session.settle_delivered,
      Session.position]

end RangeStream

/-- A stream on a file of one byte behind an empty chunk. -/
def behindEmpty : RangeStream := ⟨{ table := ⟨Index.ofSizes [0, 1], #["a", "b"], rfl⟩ }, some 1⟩

/-- The stream when the empty chunk is passed. -/
def behindEmptyPassed : RangeStream := ⟨{ behindEmpty.session with cursor := 1 }, some 1⟩

/-- A cancelled read passes the empty chunk, and later reads and closes do not notice. -/
theorem failed_read_unnoticed_behindEmpty :
    behindEmpty.session.Built ∧ behindEmpty.session.Turns [] behindEmpty.session ∧
      behindEmpty.session.closed = false ∧
      (behindEmpty.read Program.backend 5).Returns
        [.now 0, .fetch ⟨"b", false⟩ (.error .cancelled)] (.error .cancelled, behindEmptyPassed) ∧
      ∀ ops, behindEmptyPassed.answers Program.backend ops =
        behindEmpty.answers Program.backend ops := by
  have hbuilt : behindEmpty.session.Built := .new _ [0, 1] rfl
  have hread : (behindEmpty.read Program.backend 5).Returns
      [.now 0, .fetch ⟨"b", false⟩ (.error .cancelled)]
      (.error .cancelled, behindEmptyPassed) := by
    apply Program.returns_of_follow
    with_unfolding_all rfl
  obtain ⟨-, -, -, hsame⟩ := RangeStream.failed_read_unnoticed hbuilt .nil rfl hread
  exact ⟨hbuilt, .nil, rfl, hread, hsame Program Program.backend⟩

end ChunkedFile
