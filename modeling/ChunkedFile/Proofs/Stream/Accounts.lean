import Mathlib.Algebra.Order.Group.Multiset
import Mathlib.Tactic.Abel
import ChunkedFile.Proofs.Run.Totals
import ChunkedFile.Proofs.Session.Lifecycle
import ChunkedFile.Proofs.Session.Sharing
import ChunkedFile.Proofs.Stream.Admission
import ChunkedFile.Proofs.Stream.Serving

/-!
# The accounts of a link

A collector that all ranges of a link share counts what happened to them, however their calls
overlap: each opening, each release, each outcome of the store, the bytes that arrived and those
that were handed out. `CallCounts` says what a single call counts. `Link.Accounted` carries that
through a run: the steps of calls that have returned are told apart from those of calls that are
still on their way, and only the former are in the books.
-/

namespace ChunkedFile

/-- Whether a call is a release. -/
def Answer.closes : Answer → Bool
  | .read _ => false
  | .close _ => true

/-- Whether a release found the digest wrong. -/
def Answer.failsCheck : Answer → Bool
  | .close (.error (.integrity ..)) => true
  | _ => false

/-- A wait that is cancelled comes to no outcome and counts nothing. -/
theorem Step.IsCancelled.uncounted {step : Step} (h : step.IsCancelled) :
    answered [step] = 0 ∧ arrived [step] = 0 ∧ ∀ counter, total [step] counter = 0 := by
  rw [Step.IsCancelled.eq_def] at h
  split at h
  · exact ⟨rfl, rfl, fun _ => rfl⟩
  · exact ⟨rfl, rfl, fun _ => rfl⟩
  · exact h.elim

/-- What a call on a session counts, and what becomes of the session: a release counts the session
closed where it was open, each outcome of the store is counted, and a read hands out no more than
the window held before and what arrived. -/
structure CallCounts (s : Session) (steps : List Step) (answer : Answer) (t : Session) : Prop where
  calls : CountsCalls steps
  opened : total steps .sessionsOpened = 0
  closed : total steps .sessionsClosed + (if s.closed then 1 else 0) = if t.closed then 1 else 0
  shut : t.closed = (s.closed || answer.closes)
  delivered : total steps .bytesDelivered = answer.bytes.size
  kept : answer.bytes.size + t.window.size ≤ s.window.size + arrived steps
  failed : total steps .integrityFailures = if answer.failsCheck then 1 else 0

namespace Session

variable {s t : Session} {n : Nat} {steps : List Step} {result : Except Error ByteArray}
  {verdict : Except Error Unit}

/-- The bytes that a read counts and those that it leaves in the window. -/
theorem ReadRun.countsBytes (h : ReadRun s n steps result t) :
    CountsCalls steps ∧ total steps .bytesDelivered = (bytesOf result).size ∧
      (bytesOf result).size + t.window.size ≤ s.window.size + arrived steps := by
  cases h with
  | closed | nothing => exact ⟨.nil, rfl, Nat.le_of_eq (Nat.zero_add _)⟩
  | overrun | ended =>
    refine ⟨.nil, rfl, ?_⟩
    rw [settle_window]
    exact Nat.le_of_eq (Nat.zero_add _)
  | buffered =>
    have hwindow := s.settle.window.size_take_snd n
    rw [settle_window] at hwindow
    refine ⟨.delivered _, ?_, ?_⟩
    · rw [total_record, Event.adds, bytesOf]
    · simp only [deliver, bytesOf, settle_window]
      omega
  | failed _ _ i size address fetching e hneed hfetch =>
    have hfetching := Backend.countsOnlyCalls_of_fetchRetrying hfetch
    refine ⟨hfetching.toCountsCalls, hfetching.others .bytesDelivered rfl, ?_⟩
    simp [bytesOf]
  | refused _ _ i size address fetching bytes e hneed hfetch =>
    have hfetching := Backend.countsOnlyCalls_of_fetchRetrying hfetch
    refine ⟨hfetching.toCountsCalls, hfetching.others .bytesDelivered rfl, ?_⟩
    simp [bytesOf]
  | fetched _ _ i size address fetching bytes taken hneed hfetch haccept =>
    have hfetching := Backend.countsOnlyCalls_of_fetchRetrying hfetch
    obtain ⟨-, rfl⟩ := accept_eq_ok_iff.mp haccept
    refine ⟨hfetching.toCountsCalls.append (.delivered _), ?_, ?_⟩
    · rw [total_append, hfetching.others .bytesDelivered rfl, Nat.zero_add, total_record,
        Event.adds, bytesOf]
    · -- the window is the chunk that arrived, without the bytes to be skipped
      have hwindow := (Window.ofChunk bytes s.settle.skip).size_take_snd n
      have harrived : arrived fetching = bytes.size := by
        simp [arrived, Backend.fetchRetrying_payloads hfetch, brought]
      rw [Window.size_ofChunk] at hwindow
      rw [arrived_append, harrived]
      simp only [deliver, bytesOf]
      omega

/-- What a read counts. -/
theorem ReadRun.counts (h : ReadRun s n steps result t) :
    CallCounts s steps (.read result) t := by
  obtain ⟨hcalls, hdelivered, hkept⟩ := h.countsBytes
  obtain ⟨hopened, hclosed, hfailed⟩ := total_of_reads h.events_isOfReads
  have hsame : t.closed = s.closed := h.advanced.closed
  exact {
    calls := hcalls
    opened := hopened
    closed := by rw [hclosed, hsame, Nat.zero_add]
    shut := by rw [hsame, Answer.closes, Bool.or_false]
    delivered := hdelivered
    kept := hkept
    failed := hfailed }

/-- What a close counts. -/
theorem CloseRun.counts (h : CloseRun s steps verdict t) :
    CallCounts s steps (.close verdict) t := by
  cases h with
  | again hclosed =>
    exact {
      calls := .nil
      opened := rfl
      closed := Nat.zero_add _
      shut := by rw [hclosed, Bool.true_or]
      delivered := rfl
      kept := Nat.le_of_eq (Nat.zero_add _)
      failed := rfl }
  | first hopen =>
    have hshut : s.shut.2.closed = true := rfl
    have hwindow : s.shut.2.window.size = 0 := rfl
    rcases s.shut_cases with hverdict | ⟨expected, actual, hverdict⟩ <;>
    · rw [hverdict]
      exact {
        calls := ⟨rfl, rfl⟩
        opened := rfl
        closed := by
          rw [hopen, hshut]
          rfl
        shut := by rw [hopen, hshut, Answer.closes, Bool.or_true]
        delivered := rfl
        kept := by
          rw [hwindow]
          exact Nat.zero_le _
        failed := rfl }

end Session

namespace Opened

variable {opened : Opened} {next : RangeStream} {op : Operation} {steps : List Step}
  {answer : Answer}

/-- A call on a range answers what its program does. -/
theorem serve_returns (h : (opened.serve Program.backend op).Returns steps (answer, next)) :
    ∃ after, (opened.perform Program.backend op).Returns steps (answer, after) ∧
      next = after.stream := by
  simp only [serve, Program.returns_bind_iff, Program.returns_pure_iff, Prod.mk.injEq] at h
  obtain ⟨_, ⟨last, after⟩, _, hperform, ⟨rfl, rfl, rfl⟩, rfl⟩ := h
  rw [List.append_nil]
  exact ⟨after, hperform, rfl⟩

/-- What a call on a range counts; a release is one that has found something in the set. -/
theorem serve_counts (hset : op = .close → opened.releases = ReleaseSet.add {} .session)
    (h : (opened.serve Program.backend op).Returns steps (answer, next)) :
    CallCounts opened.stream.session steps answer next.session := by
  obtain ⟨after, hperform, rfl⟩ := serve_returns h
  cases op with
  | read n =>
    simp only [perform, Program.returns_bind_iff, Program.returns_pure_iff, Prod.mk.injEq]
      at hperform
    obtain ⟨_, ⟨result, stream⟩, _, hread, ⟨rfl, rfl, rfl⟩, rfl⟩ := hperform
    rw [List.append_nil]
    rcases RangeStream.read_returns hread with ⟨-, rfl, rfl, rfl⟩ | ⟨-, session, hrun, rfl⟩
    · -- the range is used up, and the session is not even asked
      exact ⟨.nil, rfl, Nat.zero_add _, by simp [Answer.closes], rfl, Nat.le_of_eq (Nat.zero_add _),
        rfl⟩
    · exact hrun.counts
  | close =>
    obtain ⟨stream, releases⟩ := opened
    obtain rfl : releases = ReleaseSet.add {} .session := hset rfl
    simp only [perform, release_eq, bind_assoc, pure_bind, Program.returns_bind_iff,
      Program.returns_pure_iff, Prod.mk.injEq] at hperform
    obtain ⟨_, ⟨verdict, session⟩, _, hclose, ⟨rfl, rfl, rfl⟩, rfl⟩ := hperform
    rw [List.append_nil]
    exact (Session.close_returns hclose).counts

/-- A call on a range that is cancelled in a wait is a read. -/
theorem serve_cancelsTo (hset : op = .close → opened.releases = ReleaseSet.add {} .session) :
    ∃ stream, (opened.serve Program.backend op).CancelsTo (.read (.error .cancelled), stream) := by
  cases op with
  | read n =>
    by_cases hused : opened.stream.remaining = some 0
    · refine ⟨opened.stream, ?_⟩
      simp only [serve, perform, RangeStream.read, hused, if_true, pure_bind]
      exact trivial
    · let left := opened.stream.consume
        ((Operation.read (opened.stream.limit n)).enter opened.stream.session) 0
      have hread : (opened.stream.read Program.backend n).CancelsTo (.error .cancelled, left) := by
        rw [RangeStream.read, if_neg hused]
        refine Session.read_cancelsTo.bind rfl ?_
        rintro ⟨result, session⟩
        cases result <;> exact trivial
      have hperform : (opened.perform Program.backend (.read n)).CancelsTo
          (.read (.error .cancelled), { opened with stream := left }) := by
        rw [perform]
        refine hread.bind ?_ fun _ => trivial
        rfl
      refine ⟨left, ?_⟩
      rw [serve]
      refine hperform.bind ?_ fun _ => trivial
      rfl
  | close =>
    obtain ⟨stream, releases⟩ := opened
    obtain rfl : releases = ReleaseSet.add {} .session := hset rfl
    refine ⟨stream, ?_⟩
    simp only [serve, perform, release_eq, bind_assoc, pure_bind, Session.close]
    by_cases hclosed : stream.session.closed = true
    · rw [if_pos hclosed]
      exact trivial
    · rw [if_neg hclosed]
      cases hshut : stream.session.shut with
      | mk verdict shut =>
        cases verdict <;> exact trivial

end Opened

namespace Served

variable {served next : Served} {act : Act}

/-- Whether the session of a range is closed. -/
def isClosed (served : Served) : Bool := served.opened.stream.session.closed

/-- The number of bytes that have arrived for a range and are still to be handed out. -/
def kept (served : Served) : Nat := served.opened.stream.session.window.size

/-- The steps of the call that has its turn. -/
def underway (served : Served) : List Step := (served.turn.map Work.made).getD []

/-- No call is between two of its waits. -/
def Rests (served : Served) : Prop := ∀ work, served.turn = some work → work.rest.waits = true

/-- What is or was in the set of a range is its session, and the call that has its turn has come to
where its steps lead. -/
structure Sound (served : Served) : Prop where
  held : served.opened.releases.isEmpty = true ∨
    served.opened.releases = ReleaseSet.add {} .session
  taken : ∀ set, served.taken = some set → set = ReleaseSet.add {} .session
  turn : ∀ work, served.turn = some work → ∃ op set,
    (op = .close → set = ReleaseSet.add {} .session) ∧
    (Opened.serve Program.backend ⟨served.opened.stream, set⟩ op).Reaches work.made work.rest

/-- What goes into the books when something happens on a range: the steps of a call that returns,
and nothing otherwise. -/
structure Books (served : Served) (act : Act) (done : List Step) (next : Served) : Prop where
  steps : (served.underway ++ act.steps).Perm (done ++ next.underway)
  calls : CountsCalls done
  opened : total done .sessionsOpened = 0
  closed : total done .sessionsClosed + (if served.isClosed then 1 else 0) =
    if next.isClosed then 1 else 0
  shut : next.isClosed = (served.isClosed || act.closes)
  delivered : total done .bytesDelivered =
    (act.answer?.toList.map fun answer => answer.bytes.size).sum
  kept : total done .bytesDelivered + next.kept ≤ served.kept + arrived done
  failed : total done .integrityFailures = act.answer?.toList.countP Answer.failsCheck

/-- What leaves the stream of a range as it is, and gives no answer of note, goes into no book. -/
theorem Books.nothing (hsteps : served.underway ++ act.steps = next.underway)
    (hstream : next.opened.stream = served.opened.stream) (hcloses : act.closes = false)
    (hanswer : ∀ answer, act.answer? = some answer → answer = .close (.ok ())) :
    Books served act [] next := by
  have hclosed : next.isClosed = served.isClosed := by rw [isClosed, hstream, isClosed]
  have hkept : next.kept = served.kept := by rw [Served.kept, hstream, Served.kept]
  have hnote : (act.answer?.toList.map fun answer => answer.bytes.size).sum = 0 ∧
      act.answer?.toList.countP Answer.failsCheck = 0 := by
    cases hact : act.answer? with
    | none => exact ⟨rfl, rfl⟩
    | some answer =>
      rw [hanswer answer hact]
      exact ⟨rfl, rfl⟩
  exact {
    steps := .of_eq hsteps
    calls := .nil
    opened := rfl
    closed := by rw [hclosed, total_nil, Nat.zero_add]
    shut := by rw [hclosed, hcloses, Bool.or_false]
    delivered := hnote.1.symm
    kept := by
      rw [hkept, total_nil]
      exact Nat.le_of_eq (Nat.zero_add _)
    failed := hnote.2.symm }

/-- Whatever happens on a sound range leaves it sound, and goes into the books as it should. -/
theorem Makes.books (h : served.Makes act next) (hsound : served.Sound) :
    next.Sound ∧ ∃ done, Books served act done next := by
  cases h with
  | read opened taken n =>
    refine ⟨⟨hsound.held, hsound.taken, ?_⟩, [], .nothing rfl rfl rfl nofun⟩
    rintro work ⟨⟩
    exact ⟨.read n, opened.releases, nofun, .refl _⟩
  | take stream releases turn hset =>
    have hreleases : releases = ReleaseSet.add {} .session := by
      rcases hsound.held with hempty | hheld
      · simp [hset] at hempty
      · exact hheld
    refine ⟨⟨Or.inl rfl, ?_, hsound.turn⟩, [], .nothing (List.append_nil _) rfl rfl nofun⟩
    rintro set ⟨⟩
    exact hreleases
  | release opened set =>
    refine ⟨⟨hsound.held, nofun, ?_⟩, [], .nothing rfl rfl rfl nofun⟩
    rintro work ⟨⟩
    exact ⟨.close, set, fun _ => hsound.taken set rfl, .refl _⟩
  | pass _ hset =>
    refine ⟨hsound, [], .nothing (List.append_nil _) rfl rfl ?_⟩
    rintro answer ⟨⟩
    rfl
  | work opened taken made p step q hdoes =>
    refine ⟨⟨hsound.held, hsound.taken, ?_⟩, [], .nothing rfl rfl rfl nofun⟩
    rintro work ⟨⟩
    obtain ⟨op, set, hset, hreaches⟩ := hsound.turn _ rfl
    exact ⟨op, set, hset, hreaches.append (.cons hdoes (.refl q))⟩
  | finish opened taken made answer stream =>
    obtain ⟨op, set, hset, hreturns⟩ := hsound.turn _ rfl
    have hcounts := Opened.serve_counts hset hreturns
    refine ⟨⟨hsound.held, hsound.taken, nofun⟩, made, ?_⟩
    exact {
      steps := .refl _
      calls := hcounts.calls
      opened := hcounts.opened
      closed := hcounts.closed
      shut := by
        have hshut := hcounts.shut
        cases answer <;> exact hshut
      delivered := by simp [Act.answer?, hcounts.delivered]
      kept := by
        rw [hcounts.delivered]
        exact hcounts.kept
      failed := by simp [Act.answer?, hcounts.failed, List.countP_cons] }

/-- A call that waits has counted all outcomes that it has seen, and nothing else. -/
theorem Sound.underway (h : served.Sound) (hrests : served.Rests) :
    CountsOnlyCalls served.underway := by
  rw [Served.underway]
  cases hturn : served.turn with
  | none => exact .nil
  | some work =>
    simp only [Option.map_some, Option.getD_some]
    obtain ⟨op, set, hset, hreaches⟩ := h.turn work hturn
    -- had its wait been cancelled, the call would have returned, and counted nothing more
    obtain ⟨stream, hcancels⟩ : ∃ stream,
        (Opened.serve Program.backend ⟨served.opened.stream, set⟩ op).CancelsTo
          (.read (.error .cancelled), stream) := Opened.serve_cancelsTo hset
    obtain ⟨last, hlast, hreturns⟩ := hcancels.returns_of_waits hreaches (hrests work hturn)
    have hcounts := Opened.serve_counts hset hreturns
    obtain ⟨hanswered, harrived, htotal⟩ := hlast.uncounted
    have hsame (counter : Counter) :
        total (work.made ++ [last]) counter = total work.made counter := by
      rw [total_append, htotal, Nat.add_zero]
    have hclosed := hcounts.closed
    rw [hcounts.shut, Answer.closes, Bool.or_false, Nat.add_eq_right] at hclosed
    refine ⟨hcounts.calls.of_append hanswered harrived htotal, fun counter hcounter => ?_⟩
    rw [← hsame]
    cases counter with
    | sessionsOpened => exact hcounts.opened
    | sessionsClosed => exact hclosed
    | bytesDelivered => exact hcounts.delivered
    | integrityFailures => exact hcounts.failed
    | chunksFetched | fetchRetries | fetchFailures | bytesFetched => cases hcounter

end Served

namespace Link

variable {link : Link} {range : ByteRange} {steps : List Step} {opened : Opened} {e : Error}
  {moves : List Move} {move : Move} {ranges next : List Served} {settled : List Step}

/-- A range that was opened is sound, and nothing has arrived for it yet. -/
theorem sound_of_openRange
    (h : (link.openRange Program.backend range).Returns steps (.ok opened)) :
    Served.Sound ⟨opened, none, none⟩ ∧ opened.stream.session.closed = false ∧
      opened.stream.session.window.size = 0 := by
  obtain ⟨session, hskip, -, hstream⟩ := of_openStream (openRange_returns h).1
  have hsession := Session.of_skipTo hskip
  refine ⟨⟨Or.inr (releases_of_openRange h), nofun, nofun⟩, ?_, ?_⟩
  · rw [hstream, hsession]
  · rw [hstream, hsession]
    rfl

/-- A range that is refused asks for nothing and counts nothing. -/
theorem steps_of_refused (h : (link.openRange Program.backend range).Returns steps (.error e)) :
    steps = [] := by
  cases hstream : link.openStream range with
  | error cause =>
    rw [openRange_of_error _ hstream, Program.returns_pure_iff] at h
    exact h.1
  | ok stream =>
    rw [openRange_of_ok _ hstream, Program.returns_bind_iff] at h
    obtain ⟨_, _, _, -, hopened, -⟩ := h
    cases (Program.returns_pure_iff.mp hopened).2

/-- The books of a link after a run: what the steps of the calls that have returned come to, and
what has become of the ranges. -/
structure Accounted (moves : List Move) (ranges : List Served) (settled : List Step) : Prop where
  steps : (stepsIn moves).Perm (settled ++ ranges.flatMap Served.underway)
  sound : ∀ served ∈ ranges, served.Sound
  calls : CountsCalls settled
  length : ranges.length = moves.countP Move.opens
  opened : total settled .sessionsOpened = ranges.length
  closed : total settled .sessionsClosed = ranges.countP Served.isClosed
  /-- The closed ranges are those that were released. -/
  released : ∀ i served, ranges[i]? = some served → served.isClosed = released moves i
  /-- What was released had been opened. -/
  within : ∀ i, Link.released moves i = true → i < ranges.length
  delivered : total settled .bytesDelivered =
    ((answersIn moves).map fun answer => answer.bytes.size).sum
  /-- What has arrived was handed out, or is kept, or is lost. -/
  kept : total settled .bytesDelivered + (ranges.map Served.kept).sum ≤ arrived settled
  failed : total settled .integrityFailures = (answersIn moves).countP Answer.failsCheck

namespace Accounted

/-- Nothing has happened yet. -/
theorem nil : Accounted [] [] [] where
  steps := .refl _
  sound _ hmem := absurd hmem List.not_mem_nil
  calls := .nil
  length := rfl
  opened := rfl
  closed := rfl
  released _ _ hserved := nomatch hserved
  within _ hreleased := nomatch hreleased
  delivered := rfl
  kept := Nat.le_refl _
  failed := rfl

/-- A range that is opened goes into the books. -/
theorem accept (h : Accounted moves ranges settled)
    (hopen : (link.openRange Program.backend range).Returns steps (.ok opened)) :
    Accounted (moves ++ [.accept range steps]) (ranges ++ [⟨opened, none, none⟩])
      (settled ++ steps) := by
  obtain ⟨hsound, hfresh, hempty⟩ := sound_of_openRange hopen
  obtain ⟨-, rfl⟩ := openRange_returns hopen
  have hclosed : Served.isClosed ⟨opened, none, none⟩ = false := hfresh
  have hkept : Served.kept ⟨opened, none, none⟩ = 0 := hempty
  have hunderway : Served.underway ⟨opened, none, none⟩ = [] := rfl
  have hreleased (i : Nat) :
      Link.released (moves ++ [.accept range [.record .sessionOpened]]) i =
        Link.released moves i := by simp [Move.closes]
  exact {
    steps := by
      have hsteps := h.steps
      simp only [stepsIn_append, Move.steps, List.flatMap_append, List.flatMap_singleton, hunderway,
        List.append_nil]
      rw [← Multiset.coe_eq_coe] at hsteps ⊢
      simp only [← Multiset.coe_add] at hsteps ⊢
      rw [hsteps]
      abel
    sound := by
      intro served hmem
      rcases List.mem_append.mp hmem with hmem | hmem
      · exact h.sound served hmem
      · rw [List.mem_singleton.mp hmem]
        exact hsound
    calls := h.calls.append ⟨rfl, rfl⟩
    length := by simp [h.length, Move.opens]
    opened := by simp [h.opened, Event.adds]
    closed := by simp [h.closed, hclosed, Event.adds]
    released := by
      intro i served hserved
      rw [hreleased]
      rcases Nat.lt_or_ge i ranges.length with hi | hi
      · rw [List.getElem?_append_left hi] at hserved
        exact h.released i served hserved
      · -- the new range is behind all that were ever released
        rw [List.getElem?_append_right hi] at hserved
        obtain ⟨-, rfl⟩ : i - ranges.length = 0 ∧ served = ⟨opened, none, none⟩ := by
          simpa [List.getElem?_singleton, eq_comm] using hserved
        rw [hclosed, eq_comm, Bool.eq_false_iff]
        intro hbefore
        exact absurd (h.within i hbefore) (Nat.not_lt.mpr hi)
    within := by
      intro i hi
      rw [hreleased] at hi
      have hlt := h.within i hi
      rw [List.length_append]
      omega
    delivered := by simp [h.delivered, Move.answer?, Event.adds]
    kept := by
      have hbefore := h.kept
      simp only [total_append, total_record, Event.adds, List.map_append, List.map_singleton, hkept,
        List.sum_append, List.sum_singleton, arrived_append]
      omega
    failed := by simp [h.failed, Move.answer?, Event.adds] }

/-- A range that is refused does not. -/
theorem refuse (h : Accounted moves ranges settled)
    (hopen : (link.openRange Program.backend range).Returns steps (.error e)) :
    Accounted (moves ++ [.refuse range steps]) ranges settled := by
  obtain rfl := steps_of_refused hopen
  have hreleased (i : Nat) :
      Link.released (moves ++ [.refuse range []]) i = Link.released moves i := by simp [Move.closes]
  exact {
    steps := by simpa [Move.steps] using h.steps
    sound := h.sound
    calls := h.calls
    length := by simp [h.length, Move.opens]
    opened := h.opened
    closed := h.closed
    released := by simpa only [hreleased] using h.released
    within := by simpa only [hreleased] using h.within
    delivered := by simp [h.delivered, Move.answer?]
    kept := h.kept
    failed := by simp [h.failed, Move.answer?] }

/-- What happens on one of the ranges goes into the books as it does for that range. -/
theorem on {before after : List Served} {served next : Served} {act : Act}
    (h : Accounted moves (before ++ served :: after) settled)
    (hmade : Served.Makes served act next) :
    ∃ done, Accounted (moves ++ [.on before.length act]) (before ++ next :: after)
      (settled ++ done) := by
  have hserved := h.sound served (by simp)
  obtain ⟨hnext, done, hbooks⟩ := hmade.books hserved
  have hreleased (i : Nat) : Link.released (moves ++ [.on before.length act]) i =
      (Link.released moves i || (before.length = i && act.closes)) := by simp [Move.closes]
  refine ⟨done, ?_⟩
  exact {
    steps := by
      have hsteps := h.steps
      have hown := hbooks.steps
      simp only [stepsIn_append, Move.steps, List.flatMap_append, List.flatMap_cons] at hsteps ⊢
      rw [← Multiset.coe_eq_coe] at hsteps hown ⊢
      simp only [← Multiset.coe_add] at hsteps hown ⊢
      -- of all ranges only this one has other steps under way than before
      calc
        _ = (settled : Multiset Step) + (before.flatMap Served.underway : List Step) +
            (after.flatMap Served.underway : List Step) + (served.underway + act.steps) := by
          rw [hsteps]
          abel
        _ = _ := by
          rw [hown]
          abel
    sound := by
      intro other hmem
      rw [List.mem_append, List.mem_cons] at hmem
      rcases hmem with hmem | rfl | hmem
      · exact h.sound other (by simp [hmem])
      · exact hnext
      · exact h.sound other (by simp [hmem])
    calls := h.calls.append hbooks.calls
    length := by
      have hlength := h.length
      simp only [List.length_append, List.length_cons] at hlength ⊢
      simp [hlength, Move.opens]
    opened := by
      have hopened := h.opened
      simp only [List.length_append, List.length_cons] at hopened ⊢
      rw [total_append, hopened, hbooks.opened, Nat.add_zero]
    closed := by
      have hclosed := h.closed
      have hown := hbooks.closed
      simp only [total_append, List.countP_append, List.countP_cons] at hclosed ⊢
      omega
    released := by
      intro i other hother
      rw [hreleased]
      by_cases hi : before.length = i
      · have hwas := h.released i served (by simp [← hi])
        obtain rfl : other = next := by simpa [← hi] using hother.symm
        rw [hbooks.shut, hwas]
        simp [hi]
      · have hset : before ++ next :: after =
            (before ++ served :: after).set before.length next := by simp
        rw [hset, List.getElem?_set_ne hi] at hother
        rw [h.released i other hother]
        simp [hi]
    within := by
      intro i hi
      rw [hreleased, Bool.or_eq_true, Bool.and_eq_true, decide_eq_true_eq] at hi
      have hwithin := h.within i
      simp only [List.length_append, List.length_cons] at hwithin ⊢
      rcases hi with hi | ⟨rfl, -⟩
      · exact hwithin hi
      · omega
    delivered := by
      rw [total_append, h.delivered, hbooks.delivered]
      simp [Move.answer?]
    kept := by
      have hkept := h.kept
      have hown := hbooks.kept
      simp only [total_append, arrived_append, List.map_append, List.map_cons, List.sum_append,
        List.sum_cons] at hkept ⊢
      omega
    failed := by
      rw [total_append, h.failed, hbooks.failed]
      simp [Move.answer?] }

end Accounted

/-- Every run of a link is accounted for. -/
theorem Runs.accounted (h : link.Runs moves ranges) : ∃ settled, Accounted moves ranges settled := by
  induction h with
  | nil => exact ⟨[], .nil⟩
  | snoc before made ih =>
    obtain ⟨settled, haccounted⟩ := ih
    cases made with
    | accept _ range steps opened hopen => exact ⟨_, haccounted.accept hopen⟩
    | refuse _ range steps e hopen => exact ⟨_, haccounted.refuse hopen⟩
    | on before served after act next hmade =>
      obtain ⟨done, hnext⟩ := haccounted.on hmade
      exact ⟨_, hnext⟩

/-- The closed ranges are counted by the releases that were made of them. -/
theorem Accounted.countP_isClosed (h : Accounted moves ranges settled) :
    ranges.countP Served.isClosed = (List.range ranges.length).countP (Link.released moves) := by
  have hreleased : ranges.map Served.isClosed =
      (List.range ranges.length).map (Link.released moves) := by
    refine List.ext_getElem (by simp) fun i hi _ => ?_
    rw [List.length_map] at hi
    simp [h.released i ranges[i] (List.getElem?_eq_getElem hi)]
  have hcount := congrArg (List.countP id) hreleased
  simpa only [List.countP_map, Function.id_comp] using hcount

/-- The metrics of a link account for everything that has happened, whatever ranges were opened,
read and released, whatever the store came to, and however the calls overlap, as long as no counter
wraps around. Only between two waits of a call can an outcome have been seen that is not counted
yet. -/
theorem Runs.metrics_account (hruns : link.Runs moves ranges)
    (hrests : ∀ served ∈ ranges, served.Rests)
    (hfew : ∀ counter, total (stepsIn moves) counter < 2 ^ 64) :
    let metrics := Metrics.after {} (stepsIn moves)
    let opens := moves.countP Move.opens
    metrics.sessionsOpened.toNat = opens ∧
    metrics.activeSessions = (List.range opens).countP (fun i => !released moves i) ∧
    metrics.chunksFetched.toNat + metrics.fetchRetries.toNat + metrics.fetchFailures.toNat =
      answered (stepsIn moves) ∧
    metrics.bytesFetched.toNat = arrived (stepsIn moves) ∧
    metrics.bytesDelivered.toNat = ((answersIn moves).map fun answer => answer.bytes.size).sum ∧
    metrics.bytesDelivered ≤ metrics.bytesFetched ∧
    metrics.integrityFailures.toNat = (answersIn moves).countP Answer.failsCheck := by
  intro metrics opens
  obtain ⟨settled, h⟩ := hruns.accounted
  have hunderway : CountsOnlyCalls (ranges.flatMap Served.underway) :=
    .flatMap fun served hmem => (h.sound served hmem).underway (hrests served hmem)
  have hvalue (counter : Counter) : (metrics.value counter).toNat = total (stepsIn moves) counter :=
    Metrics.toNat_value_after (hfew counter)
  -- calls on their way have counted outcomes and bytes, and nothing that is left to their end
  have hsettled (counter : Counter) (hcounter : counter.ofCalls = false) :
      (metrics.value counter).toNat = total settled counter := by
    rw [hvalue, total_perm h.steps, total_append, hunderway.others counter hcounter, Nat.add_zero]
  have hcalls : CountsCalls (stepsIn moves) :=
    (h.calls.append hunderway.toCountsCalls).perm h.steps
  have houtcomes : metrics.chunksFetched.toNat + metrics.fetchRetries.toNat +
      metrics.fetchFailures.toNat = answered (stepsIn moves) := by
    rw [← hcalls.outcomes, ← hvalue, ← hvalue, ← hvalue]
    rfl
  have hfetched : metrics.bytesFetched.toNat = arrived (stepsIn moves) :=
    (hvalue .bytesFetched).trans hcalls.bytes
  have hopened : metrics.sessionsOpened.toNat = opens :=
    ((hsettled .sessionsOpened rfl).trans h.opened).trans h.length
  have hclosed : metrics.sessionsClosed.toNat = (List.range opens).countP (released moves) := by
    have hcount := h.countP_isClosed
    rw [h.length] at hcount
    exact ((hsettled .sessionsClosed rfl).trans h.closed).trans hcount
  have hactive : metrics.activeSessions =
      (List.range opens).countP (fun i => !released moves i) := by
    have hsplit := (List.range opens).length_eq_countP_add_countP (released moves)
    simp only [List.length_range, Bool.not_eq_true, Bool.decide_eq_false] at hsplit
    rw [Metrics.activeSessions, hopened, hclosed]
    omega
  have hdelivered : metrics.bytesDelivered.toNat =
      ((answersIn moves).map fun answer => answer.bytes.size).sum :=
    (hsettled .bytesDelivered rfl).trans h.delivered
  have hbound : metrics.bytesDelivered ≤ metrics.bytesFetched := by
    have hkept := h.kept
    have harrived := arrived_perm h.steps
    rw [arrived_append] at harrived
    rw [UInt64.le_iff_toNat_le, hdelivered, hfetched, harrived, ← h.delivered]
    omega
  have hfailed : metrics.integrityFailures.toNat = (answersIn moves).countP Answer.failsCheck :=
    (hsettled .integrityFailures rfl).trans h.failed
  exact ⟨hopened, hactive, houtcomes, hfetched, hdelivered, hbound, hfailed⟩

end Link

/-- A range that begins behind the end of the file is refused, and the whole file is opened twice.
Of the first, a read is refused for its payload and another one brings the byte; a release that
comes meanwhile waits for that and finds the digest wrong, and one that comes after it finds nothing
to release. A read of the second has failed once and waits for its next attempt. -/
def misdigestedMoves : List Link.Move :=
  [.refuse ⟨1, none⟩ [], .accept .full [.record .sessionOpened],
    .accept .full [.record .sessionOpened], .on 0 (.read 5), .on 0 (.work (.now 0)),
    .on 1 (.read 5), .on 0 (.work (.fetch ⟨"a", false⟩ (.ok ⟨#[97, 98]⟩))),
    .on 1 (.work (.now 0)), .on 0 (.work (.now 0)),
    .on 1 (.work (.fetch ⟨"a", false⟩ (.error (.timeout "t")))),
    .on 0 (.work (.record (.chunkFetched 2 0))),
    .on 0 (.finish (.read (.error (.sizeMismatch 0 1 2)))), .on 1 (.work (.record .fetchRetried)),
    .on 0 (.read 5), .on 0 (.work (.now 0)), .on 0 .take, .on 0 .pass,
    .on 0 (.work (.fetch ⟨"a", false⟩ (.ok ⟨#[97]⟩))), .on 0 (.work (.now 0)),
    .on 0 (.work (.record (.chunkFetched 1 0))), .on 0 (.work (.record (.bytesDelivered 1))),
    .on 0 (.finish (.read (.ok ⟨#[97]⟩))), .on 0 .release, .on 0 (.work (.record .sessionClosed)),
    .on 0 (.work (.record .integrityFailed)),
    .on 0 (.finish (.close (.error (.integrity "d41d8cd98f00b204e9800998ecf8427e"
      "0cc175b9c0f1b6a831c399e269772661"))))]

/-- One of two ranges is still open, three attempts came to an outcome and brought three bytes, one
of which was handed out. -/
theorem metrics_account_misdigested :
    (∃ ranges, misdigestedLink.Runs misdigestedMoves ranges ∧ ∀ served ∈ ranges, served.Rests) ∧
      (∀ counter, total (Link.stepsIn misdigestedMoves) counter < 2 ^ 64) ∧
      let metrics := Metrics.after {} (Link.stepsIn misdigestedMoves)
      metrics.sessionsOpened.toNat = 2 ∧ metrics.activeSessions = 1 ∧
      metrics.chunksFetched.toNat + metrics.fetchRetries.toNat + metrics.fetchFailures.toNat = 3 ∧
      metrics.bytesFetched.toNat = 3 ∧ metrics.bytesDelivered.toNat = 1 ∧
      metrics.bytesDelivered ≤ metrics.bytesFetched ∧ metrics.integrityFailures.toNat = 1 := by
  have hrun : (misdigestedLink.follow misdigestedMoves).map (fun ranges =>
      ranges.map fun served => served.turn.map fun work => work.rest.waits) =
        some [none, some true] := by
    decide +kernel
  obtain ⟨ranges, hfollow, hturns⟩ := Option.map_eq_some_iff.mp hrun
  have hruns := Link.runs_of_follow hfollow
  have hrests : ∀ served ∈ ranges, served.Rests := by
    intro served hmem work hwork
    have hwaits : some work.rest.waits ∈ [none, some true] := by
      rw [← hturns, List.mem_map]
      exact ⟨served, hmem, by rw [hwork, Option.map_some]⟩
    simpa using hwaits
  have hfew : ∀ counter, total (Link.stepsIn misdigestedMoves) counter < 2 ^ 64 := by
    intro counter
    cases counter <;> decide
  exact ⟨⟨ranges, hruns, hrests⟩, hfew, hruns.metrics_account hrests hfew⟩

end ChunkedFile
