import ChunkedFile.CommandLine
import ChunkedFile.Proofs.Run.Outcomes
import ChunkedFile.Proofs.Run.Silence
import ChunkedFile.Proofs.Session.Lifecycle
import ChunkedFile.Proofs.Stream.Blocks
import ChunkedFile.Proofs.Stream.Integrity

/-!
# What the program writes

A `Terminal` keeps what a run shows: the output, what the user is told, and what was counted. On it
a run of the program is the run of the requests to the store, as every reader's is, and the blocks
that the stream brings are written one after the other. The release comes after them in any case;
it asks the store for nothing, so it cannot be kept from ending.
-/

namespace ChunkedFile

/-- What a run of the program leaves behind. -/
structure Terminal where
  /-- What was written to the standard output. -/
  output : ByteArray := ByteArray.empty
  /-- What the user was told. -/
  told : List String := []
  /-- What was counted. -/
  metrics : Metrics := {}

namespace Terminal

/-- The store that leaves every answer open and counts on the terminal. -/
def store : Backend (StateT Terminal Program) where
  fetch call := StateT.lift (Program.backend.fetch call)
  pause ms := StateT.lift (Program.backend.pause ms)
  now := StateT.lift Program.backend.now
  record event := do
    StateT.lift (Program.backend.record event)
    modify fun terminal => { terminal with metrics := terminal.metrics.record event }

/-- The surroundings in which the files are given and all output goes out. -/
def host (files : String → Except String ByteArray) :
    CommandLine.Host (StateT Terminal Program) where
  load path := return files path
  write block := do
    modify fun terminal => { terminal with output := terminal.output ++ block }
    return .ok ()
  flush := return .ok ()
  log line := modify fun terminal => { terminal with told := terminal.told ++ [line] }
  metrics := return (← get).metrics
  backend _ _ := store

variable {α : Type} {p : Program α} {steps : List Step} {value : α} {before after : Terminal}

/-- The terminal on which some steps were counted. -/
def counting (terminal : Terminal) (steps : List Step) : Terminal :=
  { terminal with metrics := terminal.metrics.after steps }

/-- The terminal with some more output. -/
def showing (terminal : Terminal) (bytes : ByteArray) : Terminal :=
  { terminal with output := terminal.output ++ bytes }

/-- What a reader does on the terminal is what it does by itself, and is counted there. -/
theorem returns_answeredBy (h : ((p.answeredBy store).run before).Returns steps (value, after)) :
    p.Returns steps value ∧ after = before.counting steps := by
  induction p generalizing before steps with
  | done last =>
    simp only [Program.answeredBy, StateT.run_pure, Program.returns_pure_iff, Prod.mk.injEq] at h
    obtain ⟨rfl, rfl, rfl⟩ := h
    exact ⟨.refl _, rfl⟩
  | fetch call next ih =>
    simp only [Program.answeredBy, store, StateT.run_bind, StateT.run_lift, bind_assoc, pure_bind,
      Program.returns_bind_iff, Program.returns_fetch_iff] at h
    obtain ⟨_, answer, rest, rfl, hrest, rfl⟩ := h
    obtain ⟨hreturns, rfl⟩ := ih answer hrest
    exact ⟨.cons (.fetch call next answer) hreturns, rfl⟩
  | pause ms next ih =>
    simp only [Program.answeredBy, store, StateT.run_bind, StateT.run_lift, bind_assoc, pure_bind,
      Program.returns_bind_iff, Program.returns_pause_iff] at h
    obtain ⟨_, elapsed, rest, rfl, hrest, rfl⟩ := h
    obtain ⟨hreturns, rfl⟩ := ih elapsed hrest
    exact ⟨.cons (.pause ms next elapsed) hreturns, rfl⟩
  | now next ih =>
    simp only [Program.answeredBy, store, StateT.run_bind, StateT.run_lift, bind_assoc, pure_bind,
      Program.returns_bind_iff, Program.returns_now_iff] at h
    obtain ⟨_, time, rest, rfl, hrest, rfl⟩ := h
    obtain ⟨hreturns, rfl⟩ := ih time hrest
    exact ⟨.cons (.now next time) hreturns, rfl⟩
  | record event next ih =>
    simp only [Program.answeredBy, store, StateT.run_bind, StateT.run_lift, StateT.run_modify,
      bind_assoc, pure_bind, Program.returns_bind_iff, Program.returns_record_iff] at h
    obtain ⟨_, _, rest, rfl, hrest, rfl⟩ := h
    obtain ⟨hreturns, rfl⟩ := ih hrest
    exact ⟨.cons (.record event next) hreturns, rfl⟩

end Terminal

namespace RangeStream

variable {stream behind : RangeStream} {steps : List Step} {blocks : List ByteArray}
  {e : Option Error} {size fuel : Nat}

/-- A stream that was taken in blocks is still open. -/
theorem BlockRun.live (h : BlockRun size stream steps blocks e behind)
    (hlive : stream.session.Live) : behind.session.Live := by
  induction h with
  | ended hread | failed hread => exact live_of_read hlive hread
  | block hread hsome others ih => exact ih (live_of_read hlive hread)

/-- Taking a stream in blocks counts what reads count. -/
theorem BlockRun.events_isOfReads (h : BlockRun size stream steps blocks e behind) :
    ∀ event ∈ events steps, event.IsOfReads := by
  have hone {stream next : RangeStream} {steps : List Step} {result : Except Error ByteArray}
      (hread : (stream.read Program.backend size).Returns steps (result, next)) :
      ∀ event ∈ events steps, event.IsOfReads := by
    rcases read_returns hread with ⟨-, rfl, -, -⟩ | ⟨-, session, hrun, -⟩
    · exact fun event hmem => absurd hmem List.not_mem_nil
    · exact hrun.events_isOfReads
  induction h with
  | ended hread | failed hread => exact hone hread
  | block hread hsome others ih =>
    intro event hmem
    rw [events_append, List.mem_append] at hmem
    exact hmem.elim (hone hread event) (ih event)

/-- From an honest store the blocks of an opened range are the bytes of the range up to where they
end, and all of them exactly where no read fails. -/
theorem BlockRun.part {link : Link} {plan : Plan} {range : ByteRange} {payload : String → ByteArray}
    (h : BlockRun size stream steps blocks e behind) (hsize : size ≠ 0)
    (hopen : link.openStream range = .ok stream) (hlists : link.table.Lists plan)
    (hfits : plan.Fits) (hstored : plan.StoredIn payload)
    (hhonest : ∀ step ∈ steps, step.Honest payload) :
    ∃ rest, joined blocks ++ rest = range.part (plan.content payload) ∧
      (rest = ByteArray.empty ↔ e = none) := by
  obtain ⟨hwithin, htable, -, -, hoffset, hwindow⟩ := Link.openStream_within hopen hlists hfits
  have hlive := (Link.openStream_built hopen hlists).live
  have hholds : stream.session.table.Holds payload (plan.content payload) := by
    rw [htable]
    exact hlists.holds hstored
  have hshows : stream.session.Shows (plan.content payload) := by
    rw [Session.Shows, hwindow, Window.size_empty, Nat.add_zero, ByteArray.extract_same]
    rfl
  have hpart : range.part (plan.content payload) =
      (plan.content payload).extract stream.offset stream.stop := by
    rw [ByteRange.part, hoffset, hwithin.stop_eq, Link.size_eq_size_content hlists hfits hstored]
  have hjoined := h.shows hlive hholds hshows hhonest
  obtain ⟨hle, hend⟩ := h.offset_add_le hlive hsize
  refine ⟨(plan.content payload).extract (stream.offset + (joined blocks).size) stream.stop, ?_, ?_⟩
  · rw [hpart, ByteArray.extract_eq_extract_append_extract
      (stream.offset + (joined blocks).size) (Nat.le_add_right _ _) hle, ← hjoined]
  · have hfile := Nat.le_trans stream.stop_le hholds.sum_le_size
    rw [hend, ByteArray.extract_eq_empty_iff]
    omega

end RangeStream

namespace Opened

variable {stream : RangeStream} {steps : List Step} {verdict : Except Error Unit}
  {released : Opened}

/-- A release is its tree of requests, answered. -/
theorem release_answeredBy {m : Type → Type} [Monad m] [LawfulMonad m] (store : Backend m)
    (stream : RangeStream) :
    (release Program.backend ⟨stream, ReleaseSet.add {} .session⟩).answeredBy store =
      release store ⟨stream, ReleaseSet.add {} .session⟩ := by
  simp only [release_eq, Program.answeredBy_bind, Session.close_answeredBy,
    Program.answeredBy_pure]

/-- The first release closes the session and leaves nothing to be released. -/
theorem of_release (hopen : stream.session.closed = false)
    (h : (release Program.backend ⟨stream, ReleaseSet.add {} .session⟩).Returns steps
      (verdict, released)) :
    steps = Session.closing verdict ∧
      released = ⟨{ stream with session := stream.session.shut.2 }, {}⟩ := by
  simp only [release_eq, Program.returns_bind_iff, Program.returns_pure_iff, Prod.mk.injEq] at h
  obtain ⟨_, ⟨last, session⟩, _, hclose, ⟨rfl, rfl, rfl⟩, rfl⟩ := h
  cases Session.close_returns hclose with
  | again hclosed => simp [hopen] at hclosed
  | first _ => exact ⟨List.append_nil _, rfl⟩

end Opened

namespace CommandLine

variable {files : String → Except String ByteArray} {stream behind : RangeStream}
  {steps : List Step} {result : Except Failure Unit} {before after : Terminal} {size fuel : Nat}
  {job : Job}

/-- What streaming comes to that ended with an error or without one. -/
def ended : Option Error → Except Failure Unit
  | some cause => .error (.range cause)
  | none => .ok ()

/-- The blocks that are written are those of the stream, up to its end or an error. -/
theorem eachBlock_returns {take : ByteArray → StateT Terminal Program (Except Failure Unit)}
    (htake : ∀ block terminal,
      (take block).run terminal = pure (.ok (), terminal.showing block))
    (h : ((stream.eachBlock Terminal.store .range take size fuel).run before).Returns steps
      ((result, behind), after)) :
    ∃ blocks e, (stream.blocksFrom Program.backend size fuel).Returns steps (blocks, e, behind) ∧
      result = ended e ∧ after = (before.counting steps).showing (joined blocks) := by
  -- by the reads that may still be made; both loops end at the same read
  induction fuel generalizing stream before steps with
  | zero =>
    simp only [RangeStream.eachBlock, StateT.run_pure, Program.returns_pure_iff,
      Prod.mk.injEq] at h
    obtain ⟨rfl, ⟨rfl, rfl⟩, rfl⟩ := h
    exact ⟨[], none, Program.returns_pure_iff.mpr ⟨rfl, rfl⟩, rfl, by
      simp [Terminal.showing, Terminal.counting]⟩
  | succ fuel ih =>
    simp only [RangeStream.eachBlock, StateT.run_bind, Program.returns_bind_iff] at h
    obtain ⟨first, ⟨⟨answer, next⟩, between⟩, rest, hfirst, hrest, rfl⟩ := h
    rw [← RangeStream.read_answeredBy] at hfirst
    obtain ⟨hread, rfl⟩ := Terminal.returns_answeredBy hfirst
    cases answer with
    | error cause =>
      simp only [StateT.run_pure, Program.returns_pure_iff, Prod.mk.injEq] at hrest
      obtain ⟨rfl, ⟨rfl, rfl⟩, rfl⟩ := hrest
      refine ⟨[], some cause, ?_, rfl, by simp [Terminal.showing, Terminal.counting]⟩
      rw [RangeStream.blocksFrom, Program.returns_bind_iff]
      exact ⟨_, _, [], hread, Program.returns_pure_iff.mpr ⟨rfl, rfl⟩, rfl⟩
    | ok block =>
      by_cases hsize : block.size = 0
      · simp only [hsize, if_true, StateT.run_pure, Program.returns_pure_iff,
          Prod.mk.injEq] at hrest
        obtain ⟨rfl, ⟨rfl, rfl⟩, rfl⟩ := hrest
        refine ⟨[], none, ?_, rfl, by simp [Terminal.showing, Terminal.counting]⟩
        rw [RangeStream.blocksFrom, Program.returns_bind_iff]
        refine ⟨_, _, [], hread, ?_, rfl⟩
        simp only [hsize, if_true, Program.returns_pure_iff, true_and]
      · simp only [hsize, if_false, StateT.run_bind, htake, pure_bind] at hrest
        obtain ⟨blocks, e, hothers, rfl, rfl⟩ := ih hrest
        refine ⟨block :: blocks, e, ?_, rfl, ?_⟩
        · rw [RangeStream.blocksFrom, Program.returns_bind_iff]
          refine ⟨_, _, rest, hread, ?_, rfl⟩
          simp only [hsize, if_false, Program.returns_bind_iff, Program.returns_pure_iff]
          exact ⟨_, _, [], hothers, ⟨rfl, rfl⟩, (List.append_nil _).symm⟩
        · simp only [Terminal.showing, Terminal.counting, joined_cons, ByteArray.append_assoc,
            Metrics.after_append]

/-- Copying a stream writes its blocks. -/
theorem copy_returns
    (h : ((copy (Terminal.host files) Terminal.store stream).run before).Returns steps
      ((result, behind), after)) :
    ∃ blocks e, (stream.blocks Program.backend blockSize).Returns steps (blocks, e, behind) ∧
      result = ended e ∧ after = (before.counting steps).showing (joined blocks) := by
  simp only [copy, StateT.run_bind, Program.returns_bind_iff] at h
  obtain ⟨first, ⟨⟨answer, next⟩, between⟩, rest, hblocks, hrest, rfl⟩ := h
  obtain ⟨blocks, e, hrun, rfl, rfl⟩ := eachBlock_returns (fun block terminal => rfl) hblocks
  cases e with
  | some cause =>
    simp only [ended, StateT.run_pure, Program.returns_pure_iff, Prod.mk.injEq] at hrest
    obtain ⟨rfl, ⟨rfl, rfl⟩, rfl⟩ := hrest
    rw [List.append_nil]
    exact ⟨blocks, some cause, hrun, rfl, rfl⟩
  | none =>
    simp only [ended, Terminal.host, Except.mapError, pure_bind, StateT.run_pure,
      Program.returns_pure_iff, Prod.mk.injEq] at hrest
    obtain ⟨rfl, ⟨rfl, rfl⟩, rfl⟩ := hrest
    rw [List.append_nil]
    exact ⟨blocks, none, hrun, rfl, rfl⟩

/-- A job whose range can be opened is streamed: the blocks are written, and then the range is
released, whatever ended them. -/
theorem stream_returns {opened : RangeStream} (hopen : job.link.openStream job.range = .ok opened)
    (h : ((CommandLine.stream (Terminal.host files) job).run before).Returns steps
      (result, after)) :
    ∃ streaming blocks e behind closing verdict released,
      (opened.blocks Program.backend blockSize).Returns streaming (blocks, e, behind) ∧
      (Opened.release Program.backend ⟨behind, ReleaseSet.add {} .session⟩).Returns closing
        (verdict, released) ∧
      steps = .record .sessionOpened :: (streaming ++ closing) ∧
      result = (ended e >>= fun _ => orRange verdict) ∧
      after = {
        output := before.output ++ joined blocks
        told := before.told ++ [job.announcement, summary (before.metrics.after steps)]
        metrics := before.metrics.after steps } := by
  have hlog (line : String) (terminal : Terminal) :
      ((Terminal.host files).log line).run terminal =
        pure ((), { terminal with told := terminal.told ++ [line] }) := rfl
  have hmetrics (terminal : Terminal) :
      (Terminal.host files).metrics.run terminal = pure (terminal.metrics, terminal) := rfl
  have hbackend : (Terminal.host files).backend job.endpoint job.patience = Terminal.store := rfl
  simp only [CommandLine.stream, StateT.run_bind, hlog, hbackend, pure_bind] at h
  obtain ⟨opening, ⟨answer, between⟩, rest, hopening, hrest, rfl⟩ := Program.returns_bind_iff.mp h
  rw [← Link.openRange_answeredBy] at hopening
  obtain ⟨hrun, rfl⟩ := Terminal.returns_answeredBy hopening
  simp only [Link.openRange, hopen, Program.returns_bind_iff, Program.returns_record_iff,
    Program.returns_pure_iff] at hrun
  obtain ⟨_, _, _, rfl, ⟨rfl, rfl⟩, rfl⟩ := hrun
  simp only [StateT.run_bind, hmetrics, hlog, pure_bind, StateT.run_pure, Program.returns_bind_iff,
    Program.returns_pure_iff, Prod.mk.injEq] at hrest
  obtain ⟨streaming, ⟨⟨copied, behind⟩, copying⟩, rest, hcopy, ⟨closing, ⟨⟨verdict, released⟩,
    shut⟩, _, hrelease, ⟨rfl, rfl, rfl⟩, rfl⟩, rfl⟩ := hrest
  obtain ⟨blocks, e, hblocks, rfl, rfl⟩ := copy_returns hcopy
  rw [← Opened.release_answeredBy] at hrelease
  obtain ⟨hclosing, rfl⟩ := Terminal.returns_answeredBy hrelease
  refine ⟨streaming, blocks, e, behind, closing, verdict, released, hblocks, hclosing, by simp,
    by cases e <;> rfl, ?_⟩
  simp only [Terminal.counting, Terminal.showing, List.append_nil, List.append_assoc,
    List.nil_append, List.cons_append, ← Metrics.after_append]

/-- What a job is made of. -/
theorem Job.of_prepare {config : Config} {text : String} {rangeArgs : List String}
    (h : Job.prepare config text rangeArgs = .ok job) :
    ∃ source plan link, PlanSource.ofText text = .ok source ∧ config.resolvePlan source = .ok plan ∧
      parseRange rangeArgs = .ok job.range ∧ Link.ofPlan plan = .ok link ∧
      job.link = {
        link with
        policy := config.retryPolicy plan.proxied
        verify := config.verifyHash } := by
  have hkept {α : Type} {first : Except Error α} {wrap : Error → Failure} {value : α}
      (hok : first.mapError wrap = .ok value) : first = .ok value := by
    cases first with
    | error e => cases hok
    | ok last =>
      rw [Except.mapError, Except.ok.injEq] at hok
      rw [hok]
  obtain ⟨plan, hplan, h⟩ := bind_eq_ok_iff.mp h
  obtain ⟨range, hrange, h⟩ := bind_eq_ok_iff.mp h
  obtain ⟨link, hlink, h⟩ := bind_eq_ok_iff.mp h
  obtain ⟨source, hsource, hplan⟩ := bind_eq_ok_iff.mp (hkept hplan)
  cases h
  exact ⟨source, plan, link, hsource, hplan, hrange, hkept hlink, rfl⟩

/-- The program streams the job that its arguments name. -/
theorem run_eq_stream {configPath planPath : String} {rangeArgs : List String} {config : Config}
    {text : String} (hcount : rangeArgs.length ≤ 2)
    (hconfig : Config.ofFile (files configPath) = .ok config)
    (htext : decodeText (files planPath) = .ok text)
    (hprepare : Job.prepare config text rangeArgs = .ok job) :
    run (Terminal.host files) (configPath :: planPath :: rangeArgs) =
      CommandLine.stream (Terminal.host files) job := by
  have hload (path : String) : (Terminal.host files).load path = pure (files path) := rfl
  have hfew : ¬ 2 < rangeArgs.length := by omega
  simp only [run, if_neg hfew, hload, pure_bind, hconfig, htext, hprepare]

/-- A run that opens a range, takes it in blocks and releases it counts one release. -/
theorem count_sessionClosed {streaming : List Step} {blocks : List ByteArray} {e : Option Error}
    (hrun : RangeStream.BlockRun size stream streaming blocks e behind)
    (verdict : Except Error Unit) :
    (events (.record .sessionOpened :: (streaming ++ Session.closing verdict))).count
      .sessionClosed = 1 := by
  have hnone : (events streaming).count .sessionClosed = 0 := by
    refine List.count_eq_zero.mpr fun hmem => ?_
    exact hrun.events_isOfReads _ hmem
  have hone : (events (Session.closing verdict)).count .sessionClosed = 1 := by
    cases verdict <;> rfl
  have hopening : events (.record .sessionOpened :: (streaming ++ Session.closing verdict)) =
      .sessionOpened :: (events streaming ++ events (Session.closing verdict)) := by
    rw [← events_append]
    rfl
  rw [hopening, List.count_cons, List.count_append, hnone, hone]
  rfl

/-- Once its range is opened, the program streams it whatever the store answers. It writes the
blocks that the stream brings, releases the range once, after the last of them, and fails with what
ended them, or else with what is wrong at the release. From an honest store it writes a beginning of
the range, and succeeds exactly where that is the whole range and the release finds no fault. -/
theorem range_streamed {configPath planPath : String} {rangeArgs : List String} {config : Config}
    {text : String} {opened : RangeStream} (hcount : rangeArgs.length ≤ 2)
    (hconfig : Config.ofFile (files configPath) = .ok config)
    (htext : decodeText (files planPath) = .ok text)
    (hprepare : Job.prepare config text rangeArgs = .ok job)
    (hopen : job.link.openStream job.range = .ok opened) :
    (∀ outcomes, ∃ steps answer,
      ((run (Terminal.host files) (configPath :: planPath :: rangeArgs)).run {}).Returns steps
        answer ∧ Follows outcomes 0 steps) ∧
    ∃ source plan, PlanSource.ofText text = .ok source ∧ config.resolvePlan source = .ok plan ∧
      parseRange rangeArgs = .ok job.range ∧
      ∀ steps result terminal,
        ((run (Terminal.host files) (configPath :: planPath :: rangeArgs)).run {}).Returns steps
          (result, terminal) →
        ∃ streaming blocks e behind closing verdict released,
          steps = .record .sessionOpened :: (streaming ++ closing) ∧
          (opened.blocks Program.backend blockSize).Returns streaming (blocks, e, behind) ∧
          terminal.output = joined blocks ∧
          (Opened.release Program.backend ⟨behind, ReleaseSet.add {} .session⟩).Returns closing
            (verdict, released) ∧
          released.stream.session.closed = true ∧ released.releases = {} ∧
          (events steps).count .sessionClosed = 1 ∧
          result = (match e with
            | some cause => .error (.range cause)
            | none => orRange verdict) ∧
          ∀ payload, plan.StoredIn payload → (∀ step ∈ steps, step.Honest payload) →
            (∃ rest, terminal.output ++ rest = job.range.part (plan.content payload)) ∧
            (result = .ok () ↔
              terminal.output = job.range.part (plan.content payload) ∧ verdict = .ok ()) := by
  obtain ⟨source, plan, link, hsource, hplan, hrange, hlink, hjob⟩ := Job.of_prepare hprepare
  obtain ⟨hfits, hlists, -⟩ := Link.of_ofPlan hlink
  have htable : job.link.table.Lists plan := by
    rw [hjob]
    exact hlists
  have hlive := (Link.openStream_built hopen htable).live
  refine ⟨fun outcomes => Program.exists_follows outcomes _ 0, source, plan, hsource, hplan,
    hrange, ?_⟩
  intro steps result terminal h
  rw [run_eq_stream hcount hconfig htext hprepare] at h
  obtain ⟨streaming, blocks, e, behind, closing, verdict, released, hblocks, hrelease, rfl, rfl,
    rfl⟩ := stream_returns hopen h
  have hrun := RangeStream.blocksFrom_returns hlive
    (RangeStream.lt_offset_add_enough hlive.stands) hblocks
  obtain ⟨rfl, rfl⟩ := Opened.of_release (hrun.live hlive).isOpen hrelease
  refine ⟨streaming, blocks, e, behind, _, verdict, _, rfl, hblocks, ByteArray.empty_append,
    hrelease, rfl, rfl, count_sessionClosed hrun verdict, by cases e <;> rfl, ?_⟩
  intro payload hstored hhonest
  obtain ⟨rest, hpart, hend⟩ := hrun.part (by decide) hopen htable hfits hstored fun step hstep =>
    hhonest step (List.mem_cons_of_mem _ (List.mem_append_left _ hstep))
  rw [ByteArray.empty_append]
  refine ⟨⟨rest, hpart⟩, ?_⟩
  -- the rest of the range is empty exactly where no read failed
  have hwhole : joined blocks = job.range.part (plan.content payload) ↔ e = none := by
    rw [← hend, ← hpart]
    simp [ByteArray.ext_iff]
  cases e with
  | none =>
    rw [hwhole, eq_self, true_and]
    cases verdict with
    | ok => exact ⟨fun _ => rfl, fun _ => rfl⟩
    | error cause => exact ⟨nofun, nofun⟩
  | some cause =>
    rw [hwhole]
    exact ⟨nofun, nofun⟩

/-- A plan's source with two chunks. -/
def twoChunksText : String :=
  "\x7b\"chunks\":[\x7b\"address\":\"a\",\"size\":2\x7d,\x7b\"address\":\"c\",\"size\":1\x7d]\x7d"

/-- The files of a run: a configuration that leaves one attempt for each chunk, and the source. -/
def twoChunksFiles : String → Except String ByteArray
  | "connector.yaml" => .ok "max_fetch_attempts: 1".toUTF8
  | "plan.json" => .ok twoChunksText.toUTF8
  | _ => .error (systemReason 2 "")

/-- The job of streaming all three bytes. -/
def twoChunksJob : Job where
  endpoint := Config.endpoint {}
  patience := 60
  link := {
    table := ⟨Index.ofSizes [2, 1], #["/a", "/c"], rfl⟩
    policy := ⟨1, 1000⟩
    proxied := false
    digest := none }
  range := .full

/-- What is stored at the two addresses. -/
def twoChunksStored (address : String) : ByteArray :=
  if address = "/a" then ⟨#[7, 8]⟩ else ⟨#[9]⟩

/-- The steps of a run in which the second chunk comes with a byte too many. -/
def twoChunksSteps : List Step :=
  [.record .sessionOpened, .now 0, .fetch ⟨"/a", false⟩ (.ok ⟨#[7, 8]⟩), .now 0,
    .record (.chunkFetched 2 0), .record (.bytesDelivered 2), .now 0,
    .fetch ⟨"/c", false⟩ (.ok ⟨#[9, 9]⟩), .now 0, .record (.chunkFetched 2 0),
    .record .sessionClosed]

/-- The first chunk is written, the range is released, and the run fails. -/
theorem range_streamed_twoChunks :
    (∀ step ∈ twoChunksSteps, step.Honest twoChunksStored) ∧ ∃ terminal,
      ((run (Terminal.host twoChunksFiles) ["connector.yaml", "plan.json"]).run {}).Returns
        twoChunksSteps (.error (.range (.sizeMismatch 1 1 2)), terminal) ∧
      terminal.output = ⟨#[7, 8]⟩ ∧ (events twoChunksSteps).count .sessionClosed = 1 ∧
      ∃ rest, terminal.output ++ rest =
        ByteRange.part .full (joined [twoChunksStored "/a", twoChunksStored "/c"]) := by
  have hconfig : Config.ofFile (twoChunksFiles "connector.yaml") =
      .ok { maxFetchAttempts := 1 } := by
    decide +kernel
  have htext : decodeText (twoChunksFiles "plan.json") = .ok twoChunksText := by decide +kernel
  have hsource : PlanSource.ofText twoChunksText =
      .ok { layout := .chunks [⟨"a", 2⟩, ⟨"c", 1⟩] } := by
    decide +kernel
  have hprepare : Job.prepare { maxFetchAttempts := 1 } twoChunksText [] = .ok twoChunksJob := by
    rw [Job.prepare, hsource]
    rfl
  have hhonest : ∀ step ∈ twoChunksSteps, step.Honest twoChunksStored := by
    simp [twoChunksSteps, Step.Honest, twoChunksStored]
    decide
  have hstream : twoChunksJob.link.openStream twoChunksJob.range = .ok ⟨{
      table := twoChunksJob.link.table, policy := ⟨1, 1000⟩ }, none⟩ := by
    with_unfolding_all rfl
  have hfollow : (((CommandLine.stream (Terminal.host twoChunksFiles) twoChunksJob).run {}).follow
      twoChunksSteps).map (fun answer : Except Failure Unit × Terminal =>
        (answer.1, answer.2.output)) =
          some (.error (.range (.sizeMismatch 1 1 2)), ⟨#[7, 8]⟩) := by
    with_unfolding_all rfl
  obtain ⟨⟨result, terminal⟩, hreturns, hanswer⟩ := Option.map_eq_some_iff.mp hfollow
  obtain ⟨rfl, houtput⟩ := Prod.mk.inj hanswer
  have hrun := Program.returns_of_follow hreturns
  rw [← run_eq_stream (by decide) hconfig htext hprepare] at hrun
  obtain ⟨-, source, plan, hread, hplan, -, hstreamed⟩ :=
    range_streamed (by decide) hconfig htext hprepare hstream
  obtain ⟨_, _, _, _, _, _, _, -, -, -, -, -, -, hcount, -, hpart⟩ := hstreamed _ _ _ hrun
  rw [hsource, Except.ok.injEq] at hread
  subst hread
  cases hplan
  obtain ⟨hslice, -⟩ := hpart twoChunksStored (by decide) hhonest
  exact ⟨hhonest, terminal, hrun, houtput, hcount, hslice⟩

end CommandLine

end ChunkedFile
