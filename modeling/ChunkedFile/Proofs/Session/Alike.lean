import ChunkedFile.Proofs.Session.Turns

/-!
# Sessions that no call tells apart

A read settles its session before it asks for anything, so two sessions that settle to the same one
have the same future. `Session.Alike` is this relation. It is an equation between settled sessions,
and each call respects it: the rest of any computation may be moved from one session to the other.
-/

namespace ChunkedFile

namespace Session

variable {s t : Session} {n : Nat} {steps : List Step} {e : Error}

/-- A settled session has nothing more to pass. -/
theorem settle_settle (s : Session) : s.settle.settle = s.settle := by
  have hskipped := s.table.index.passSkipped_passSkipped s.cursor s.skip
  have hempty := s.table.index.passSkipped_passEmpty s.cursor s.skip
  by_cases hwindow : s.window.size = 0
  · simp [settle, hwindow, hempty, Index.passEmpty_passEmpty]
  · simp [settle, hwindow, hskipped]

/-- Sessions that settle to the same one. -/
def Alike (s t : Session) : Prop := s.settle = t.settle

theorem alike_settle (s : Session) : s.settle.Alike s := s.settle_settle

/-- A read of an open session that fails leaves it settled. -/
theorem ReadRun.eq_settle_of_error (h : ReadRun s n steps (.error e) t) (hopen : s.closed = false) :
    t = s.settle := by
  generalize hresult : (.error e : Except Error ByteArray) = result at h
  cases h with
  | closed hclosed => simp [hopen] at hclosed
  | overrun | failed | refused => rfl
  | nothing | ended | buffered | fetched => cases hresult

namespace Alike

theorem table (h : s.Alike t) : s.table = t.table := by
  rw [← settle_table, h, settle_table]

theorem verifier (h : s.Alike t) : s.verifier = t.verifier := by
  rw [← settle_verifier, h, settle_verifier]

theorem start (h : s.Alike t) : s.start = t.start := by
  rw [← settle_start, h, settle_start]

theorem delivered (h : s.Alike t) : s.delivered = t.delivered := by
  rw [← settle_delivered, h, settle_delivered]

theorem closed (h : s.Alike t) : s.closed = t.closed := by
  rw [← settle_closed, h, settle_closed]

/-- Alike sessions are shut with the same verdict and are alike afterwards. -/
theorem shut (h : s.Alike t) : s.shut.1 = t.shut.1 ∧ s.shut.2.Alike t.shut.2 := by
  have hverdict : s.shut.1 = t.shut.1 := by
    simp only [Session.shut, h.verifier, h.start, h.delivered, h.table]
  -- the window is emptied, so the cursor is free to pass empty chunks that it had to stop at before
  have hsettle (u : Session) : u.settle.shut.2.settle = u.shut.2.settle := by
    have hempty := u.table.index.passSkipped_passEmpty u.cursor u.skip
    have hskipped := u.table.index.passSkipped_passSkipped u.cursor u.skip
    by_cases hwindow : u.window.size = 0
    · simp [settle, Session.shut, hwindow, hempty, Index.passEmpty_passEmpty]
    · simp [settle, Session.shut, hwindow, hskipped]
  refine ⟨hverdict, ?_⟩
  rw [Alike, ← hsettle s, ← hsettle t, h]

/-- Where a read settles its session first, it is the same computation on alike sessions. -/
theorem read_eq {m : Type → Type} [Monad m] (h : s.Alike t) (backend : Backend m)
    (hopen : t.closed = false) (hn : n ≠ 0) : s.read backend n = t.read backend n := by
  simp only [Session.read, h.closed, hopen, Bool.false_eq_true, if_false, if_neg hn]
  rw [h]

section Bind

variable {m : Type → Type} [Monad m] [LawfulMonad m] {β : Type} (backend : Backend m)

/-- A read of alike sessions goes the same way: what comes after it is the same computation if it
treats alike sessions the same. -/
theorem bind_read (h : s.Alike t) {f g : Except Error ByteArray × Session → m β}
    (hfg : ∀ result u v, u.Alike v → f (result, u) = g (result, v)) :
    s.read backend n >>= f = t.read backend n >>= g := by
  have hclosed := h.closed
  cases hopen : t.closed with
  | true =>
    rw [hopen] at hclosed
    simp [Session.read, hclosed, hopen, hfg _ _ _ h]
  | false =>
    rw [hopen] at hclosed
    by_cases hn : n = 0
    · simp [Session.read, hclosed, hopen, hn, hfg _ _ _ h]
    · have hsame : f = g := funext fun answer => hfg answer.1 answer.2 answer.2 rfl
      rw [h.read_eq backend hopen hn, hsame]

/-- A close of alike sessions goes the same way. -/
theorem bind_close (h : s.Alike t) {f g : Except Error Unit × Session → m β}
    (hfg : ∀ verdict u v, u.Alike v → f (verdict, u) = g (verdict, v)) :
    s.close backend >>= f = t.close backend >>= g := by
  have hclosed := h.closed
  cases hopen : t.closed with
  | true =>
    rw [hopen] at hclosed
    simp [Session.close, hclosed, hopen, hfg _ _ _ h]
  | false =>
    rw [hopen] at hclosed
    obtain ⟨hverdict, hshut⟩ := h.shut
    simp only [Session.close, hclosed, hopen, Bool.false_eq_true, if_false, bind_assoc, hverdict]
    refine bind_congr fun _ => ?_
    split <;> simp [hfg _ _ _ hshut]

end Bind

end Alike

end Session

end ChunkedFile
