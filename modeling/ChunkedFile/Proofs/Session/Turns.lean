import ChunkedFile.Proofs.Run.Events
import ChunkedFile.Proofs.Session.Placement

/-!
# Calls on a session, one after the other

A history lists the calls on a session in their order, reads and closes alike, each with its
requests, its answer and the session left behind. `Session.Built` says how sessions come about; what
holds of a built session and is kept by every call holds of all sessions that a history leads to.
-/

namespace ChunkedFile

/-- A call on a session. -/
inductive Operation where
  /-- A read of at most so many bytes. -/
  | read (n : Nat)
  | close
  deriving DecidableEq, Repr

/-- What a call on a session answers. -/
inductive Answer where
  | read (result : Except Error ByteArray)
  | close (verdict : Except Error Unit)

/-- The bytes that a call brought. -/
def Answer.bytes : Answer → ByteArray
  | .read result => bytesOf result
  | .close _ => ByteArray.empty

/-- What a closed session answers. -/
def Operation.answerOfClosed : Operation → Answer
  | .read _ => .read (.error .sessionClosed)
  | .close => .close (.ok ())

/-- One call in a history. -/
structure Turn where
  operation : Operation
  steps : List Step
  answer : Answer
  after : Session

/-- The error in which a read of an open session can end. -/
def Error.FailsRead : Error → Prop
  | .fetchFailed .. | .sizeMismatch .. | .cancelled => True
  | _ => False

namespace Session

variable {s t first : Session} {n : Nat} {op : Operation} {steps : List Step} {answer : Answer}
  {result : Except Error ByteArray} {verdict : Except Error Unit} {turns : List Turn}

/-- A call on a session, over any backend. -/
def perform {m : Type → Type} [Monad m] (backend : Backend m) (s : Session) :
    Operation → m (Answer × Session)
  | .read n => do
    let (result, s) ← s.read backend n
    return (.read result, s)
  | .close => do
    let (verdict, s) ← s.close backend
    return (.close verdict, s)

/-- The sessions that can be built: on chunks of any recorded sizes, even without a sum, and placed
and configured any number of times, or not at all, before the first call. -/
inductive Built : Session → Prop
  | new (table sizes) (hindex : table.index = .ofSizes sizes) : Built { table }
  | skipTo {s t : Session} {start : Nat} (before : Built s) (hskip : s.skipTo start = .ok t) :
      Built t
  | configured {s : Session} (before : Built s) (policy proxied verifier) :
      Built { s with policy, proxied, verifier }

/-- A session of which nothing was read yet. -/
structure Fresh (s : Session) : Prop where
  stands : s.Stands
  laid : s.table.index.Laid
  isOpen : s.closed = false
  delivered : s.delivered = 0
  window : s.window = .empty

/-- What was built is fresh. -/
theorem Built.fresh (h : s.Built) : s.Fresh := by
  induction h with
  | new table sizes hindex =>
    refine ⟨⟨fun hskip => absurd rfl hskip, ?_⟩, ?_, rfl, rfl, rfl⟩
    · simp only [Index.offset_zero, Window.size_empty]
    · simp only [hindex]
      exact Index.laid_ofSizes sizes
  | @skipTo s t start before hskip ih =>
    have hwindow : s.window.size = 0 := by rw [ih.window, Window.size_empty]
    obtain ⟨hstands, -, heq⟩ := Stands.skipTo ih.laid ih.delivered hwindow hskip
    rw [heq] at hstands ⊢
    exact ⟨hstands, ih.laid, ih.isOpen, ih.delivered, ih.window⟩
  | configured before policy proxied verifier ih =>
    exact ⟨⟨ih.stands.skip, ih.stands.position⟩, ih.laid, ih.isOpen, ih.delivered, ih.window⟩

/-- What the first close counts. -/
def closing : Except Error Unit → List Step
  | .ok () => [.record .sessionClosed]
  | .error _ => [.record .sessionClosed, .record .integrityFailed]

/-- The runs of a close: requests, verdict and the session left behind. -/
inductive CloseRun (s : Session) : List Step → Except Error Unit → Session → Prop
  | again (hclosed : s.closed = true) : CloseRun s [] (.ok ()) s
  | first (hopen : s.closed = false) : CloseRun s (closing s.shut.1) s.shut.1 s.shut.2

/-- Every run of a close is one of these cases. -/
theorem close_returns (h : (s.close Program.backend).Returns steps (verdict, t)) :
    CloseRun s steps verdict t := by
  rw [close] at h
  by_cases hclosed : s.closed = true
  · rw [if_pos hclosed, Program.returns_pure_iff, Prod.mk.injEq] at h
    obtain ⟨rfl, rfl, rfl⟩ := h
    exact .again hclosed
  have hopen : s.closed = false := by simpa using hclosed
  have hrun := CloseRun.first hopen
  rw [if_neg hclosed] at h
  cases hshut : s.shut with
  | mk last shut =>
    rw [hshut] at hrun
    simp only [hshut] at h
    cases last with
    | ok =>
      simp only [Bool.false_eq_true, if_false, Program.returns_bind_iff,
        Program.returns_record_iff, Program.returns_pure_iff, Prod.mk.injEq] at h
      obtain ⟨_, _, _, rfl, ⟨rfl, rfl, rfl⟩, rfl⟩ := h
      exact hrun
    | error e =>
      simp only [if_true, Program.returns_bind_iff, Program.returns_record_iff,
        Program.returns_pure_iff, Prod.mk.injEq] at h
      obtain ⟨_, _, _, rfl, ⟨_, _, _, rfl, ⟨rfl, rfl, rfl⟩, rfl⟩, rfl⟩ := h
      exact hrun

/-- An open session is closed without waiting for anything. -/
theorem close_of_open (hopen : s.closed = false) :
    (s.close Program.backend).Returns (closing s.shut.1) s.shut := by
  rw [close, hopen, if_neg Bool.false_ne_true]
  cases hshut : s.shut with
  | mk last shut =>
    cases last with
    | ok =>
      simp only [Bool.false_eq_true, if_false, Program.returns_bind_iff,
        Program.returns_record_iff, Program.returns_pure_iff]
      exact ⟨_, (), _, rfl, ⟨rfl, trivial⟩, rfl⟩
    | error e =>
      simp only [if_true, Program.returns_bind_iff, Program.returns_record_iff,
        Program.returns_pure_iff]
      exact ⟨_, (), _, rfl, ⟨_, (), _, rfl, ⟨rfl, trivial⟩, rfl⟩, rfl⟩

/-- The verdict of a session is that of its verifier where the whole file was handed out. -/
theorem shut_verdict (s : Session) : s.shut.1 = .ok () ∨
    ∃ v, s.verifier = some v ∧ s.start = 0 ∧ s.delivered = s.table.total ∧
      s.shut.1 = v.verify := by
  cases hverifier : s.verifier with
  | none => exact Or.inl (by simp [shut, hverifier])
  | some v =>
    by_cases hcomplete : s.start = 0 ∧ s.delivered = s.table.total
    · exact Or.inr ⟨v, rfl, hcomplete.1, hcomplete.2, by simp [shut, hverifier, hcomplete]⟩
    · exact Or.inl (by simp [shut, hverifier, hcomplete])

/-- The verdict of a session is a wrong digest if it is an error. -/
theorem shut_cases (s : Session) : s.shut.1 = .ok () ∨
    ∃ expected actual, s.shut.1 = .error (.integrity expected actual) := by
  rcases s.shut_verdict with hok | ⟨v, -, -, -, hverify⟩
  · exact Or.inl hok
  · rw [hverify, Verifier.verify]
    split
    · exact Or.inl rfl
    · exact Or.inr ⟨_, _, rfl⟩

/-- A read as an operation is a read of the session. -/
theorem perform_read_returns (h : (s.perform Program.backend (.read n)).Returns steps (answer, t)) :
    ∃ result, answer = .read result ∧ ReadRun s n steps result t := by
  simp only [perform, Program.returns_bind_iff, Program.returns_pure_iff, Prod.mk.injEq] at h
  obtain ⟨_, ⟨result, _⟩, _, hread, ⟨rfl, rfl, rfl⟩, rfl⟩ := h
  rw [List.append_nil]
  exact ⟨result, rfl, read_returns hread⟩

/-- A close as an operation is a close of the session. -/
theorem perform_close_returns (h : (s.perform Program.backend .close).Returns steps (answer, t)) :
    ∃ verdict, answer = .close verdict ∧ CloseRun s steps verdict t := by
  simp only [perform, Program.returns_bind_iff, Program.returns_pure_iff, Prod.mk.injEq] at h
  obtain ⟨_, ⟨verdict, _⟩, _, hclose, ⟨rfl, rfl, rfl⟩, rfl⟩ := h
  rw [List.append_nil]
  exact ⟨verdict, rfl, close_returns hclose⟩

/-- An open session can be closed, whatever the verdict. -/
theorem perform_close_of_open (hopen : s.closed = false) :
    (s.perform Program.backend .close).Returns (closing s.shut.1)
      (.close s.shut.1, s.shut.2) := by
  simp only [perform, Program.returns_bind_iff, Program.returns_pure_iff]
  exact ⟨_, s.shut, _, close_of_open hopen, ⟨rfl, rfl⟩, (List.append_nil _).symm⟩

/-- A closed session answers at once, asks for nothing and stays as it is. -/
theorem perform_of_closed {m : Type → Type} [Monad m] [LawfulMonad m] (backend : Backend m)
    (hclosed : s.closed = true) (op : Operation) :
    s.perform backend op = pure (op.answerOfClosed, s) := by
  cases op with
  | read n => simp [perform, read, hclosed, Operation.answerOfClosed]
  | close => simp [perform, close, hclosed, Operation.answerOfClosed]

/-- A session is closed after a call where it was closed before or the call closes it. -/
theorem closed_of_perform (h : (s.perform Program.backend op).Returns steps (answer, t)) :
    t.closed = true ↔ s.closed = true ∨ op = .close := by
  cases op with
  | read n =>
    obtain ⟨result, -, hread⟩ := perform_read_returns h
    rw [hread.advanced.closed]
    simp
  | close =>
    obtain ⟨verdict, -, hclose⟩ := perform_close_returns h
    cases hclose with
    | again hclosed => simp [hclosed]
    | first hopen => simp [shut]

/-- A session that a call leaves open stands where its counters tell. -/
theorem Stands.perform (hstands : s.Stands)
    (h : (s.perform Program.backend op).Returns steps (answer, t)) (hopen : t.closed = false) :
    t.Stands := by
  cases op with
  | read n =>
    obtain ⟨result, -, hread⟩ := perform_read_returns h
    exact hstands.read hread
  | close =>
    have hclosed := (closed_of_perform h).mpr (Or.inr rfl)
    rw [hopen] at hclosed
    cases hclosed

/-- The errors in which a read of an open session can end. -/
theorem ReadRun.failsRead {e : Error} (h : ReadRun s n steps (.error e) t) (hstands : s.Stands)
    (hopen : s.closed = false) : e.FailsRead := by
  generalize hresult : (.error e : Except Error ByteArray) = result at h
  cases h with
  | closed hclosed => simp [hopen] at hclosed
  | nothing | ended | buffered | fetched => cases hresult
  | overrun _ _ hneed => exact absurd hneed hstands.need_ne_overrun
  | failed _ _ i size address fetching cause hneed hfetch =>
    rw [Except.error.injEq] at hresult
    rw [hresult]
    rcases Backend.error_of_fetchRetrying hfetch with rfl | ⟨attempts, last, rfl⟩ <;> exact trivial
  | refused _ _ i size address fetching bytes cause hneed hfetch haccept =>
    rw [Except.error.injEq] at hresult
    rw [hresult]
    simp only [accept] at haccept
    split at haccept
    · rw [Except.error.injEq] at haccept
      rw [← haccept]
      exact trivial
    · cases haccept

/-- The histories of calls on a session and the sessions they lead to. -/
inductive Turns (first : Session) : List Turn → Session → Prop
  | nil : Turns first [] first
  | snoc {turns : List Turn} {s t : Session} {op : Operation} {steps : List Step} {answer : Answer}
      (before : Turns first turns s)
      (call : (s.perform Program.backend op).Returns steps (answer, t)) :
      Turns first (turns ++ [⟨op, steps, answer, t⟩]) t

/-- Every call of a history was made on the session that the calls before it led to. -/
theorem Turns.of_append {before rest : List Turn} {turn : Turn}
    (h : first.Turns (before ++ turn :: rest) t) :
    ∃ s, first.Turns before s ∧
      (s.perform Program.backend turn.operation).Returns turn.steps (turn.answer, turn.after) := by
  generalize hall : before ++ turn :: rest = turns at h
  induction h generalizing rest with
  | nil => simp at hall
  | @snoc turns s t op steps answer earlier call ih =>
    rcases List.eq_nil_or_concat rest with rfl | ⟨init, last, rfl⟩
    · obtain ⟨rfl, hlast⟩ := List.append_inj' hall rfl
      rw [List.singleton_inj] at hlast
      rw [hlast]
      exact ⟨s, earlier, call⟩
    · have hinit : before ++ turn :: init = turns := by
        rw [List.concat_eq_append, ← List.cons_append, ← List.append_assoc] at hall
        exact (List.append_inj' hall rfl).1
      exact ih hinit

/-- A session is closed exactly where its history has a close. -/
theorem Turns.closed_iff (h : first.Turns turns t) (hopen : first.closed = false) :
    t.closed = true ↔ ∃ turn ∈ turns, turn.operation = .close := by
  induction h with
  | nil => simp [hopen]
  | snoc before call ih => simp [closed_of_perform call, ih]

/-- A session that is still open after some calls stands where its counters tell. -/
theorem Turns.stands (h : first.Turns turns t) (hstands : first.Stands)
    (hopen : t.closed = false) : t.Stands := by
  induction h with
  | nil => exact hstands
  | @snoc turns s t op steps answer before call ih =>
    have hbefore : s.closed = false := by
      by_contra hclosed
      rw [(closed_of_perform call).mpr (Or.inl (by simpa using hclosed))] at hopen
      cases hopen
    exact (ih hbefore).perform call hopen

end Session

/-- A session on a file of one byte. -/
def oneByte : Session :=
  { table := ⟨Index.ofSizes [1], #["a"], rfl⟩, policy := .direct, proxied := false,
    verifier := none }

/-- The session after it was closed. -/
def oneByteClosed : Session := { oneByte with closed := true }

/-- A read that is cancelled, a close, and a read of nothing. -/
def oneByteTurns : List Turn :=
  [⟨.read 5, [.now 0, .fetch ⟨"a", false⟩ (.error .cancelled)], .read (.error .cancelled), oneByte⟩,
    ⟨.close, [.record .sessionClosed], .close (.ok ()), oneByteClosed⟩,
    ⟨.read 0, [], .read (.error .sessionClosed), oneByteClosed⟩]

theorem oneByte_built : oneByte.Built := .new _ [1] rfl

theorem oneByte_turns : oneByte.Turns oneByteTurns oneByteClosed := by
  have hcancelled : (oneByte.perform Program.backend (.read 5)).Returns
      [.now 0, .fetch ⟨"a", false⟩ (.error .cancelled)] (.read (.error .cancelled), oneByte) := by
    apply Program.returns_of_follow
    with_unfolding_all rfl
  have hclosed : (oneByte.perform Program.backend .close).Returns [.record .sessionClosed]
      (.close (.ok ()), oneByteClosed) := by
    apply Program.returns_of_follow
    rfl
  have hrefused : (oneByteClosed.perform Program.backend (.read 0)).Returns []
      (.read (.error .sessionClosed), oneByteClosed) := by
    apply Program.returns_of_follow
    rfl
  exact .snoc (.snoc (.snoc .nil hcancelled) hclosed) hrefused

end ChunkedFile
