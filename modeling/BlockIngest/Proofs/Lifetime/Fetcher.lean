import BlockIngest.Proofs.Pipeline.Restart
import BlockIngest.Proofs.Pipeline.Supervision

/-!
# A fetcher over its lifetime

A fetcher is started and stopped as often as one likes, and between the two its tasks do what
they want.  A start that reads the store always ends in a run above what is stored.  Whether
this run goes anywhere is another question: it hangs on the root token, which outlives the
runs, and a run that fails cancels it.  So once a run was aborted, every later one is
cancelled as it begins, and the start says nothing of it.

## Main definitions

* `Fetcher.Session`, `Fetcher.Deed`, `Fetcher.Session.step` — a fetcher with what it has come
  through, and what is done with it.
* `Fetcher.Session.Kept` — the invariant.
* `Fetcher.Session.Restarts` — the law.

## Main results

* `Fetcher.Session.Kept.step` — **every deed keeps the invariant.**
* `Fetcher.restarts_after` — **every start begins a run above what is stored, and the run is
  cancelled at once if and only if the root token was cancelled or an earlier run aborted.**
* `Fetcher.restarts_after_abort` — such a run.
-/

namespace BlockIngest

/-- Whether a move is made by a task of the run. -/
def Move.ofTask : Move → Bool
  | .worker _ _ => true
  | .sequencer _ => true
  | .refresher _ => true
  | .cancelRun => false
  | .cancelRoot => false

namespace Fetcher

/-! ### What is done with a fetcher -/

/-- How far a fetcher has come with what it was asked to do. -/
inductive Stage where
  /-- It is not asked for anything. -/
  | free
  /-- It is being started: the store was read, and the head is asked for. -/
  | starting (latest : Option ℕ)
  /-- It is being stopped: its tasks are ending. -/
  | stopping
  deriving DecidableEq

/-- What is done with a fetcher, or happens to it. -/
inductive Deed where
  /-- It is asked to start; the store may fail to say what is stored. -/
  | start (unread : Option Failure)
  /-- The head was asked for, and its tasks are launched. -/
  | launch (head : Except Failure ℕ)
  /-- A task of its run does a step. -/
  | task (m : Move)
  /-- Its root token is cancelled from outside. -/
  | cancel
  /-- It is asked to stop. -/
  | stop
  /-- All tasks of its run have ended, and so has the stop. -/
  | finish

/-- What the store says when it is asked for its latest height. -/
def reading (f : Fetcher) : Option Failure → Except Failure (Option ℕ)
  | some failure => .error failure
  | none => .ok f.store.latestHeight

/-- The fetcher after a task of its run has done a step. -/
def afterTask (f : Fetcher) (m : Move) : Option Fetcher :=
  match f.engine with
  | .running w =>
      if m.ofTask then (w.move m).map fun w' => { f with engine := .running w' } else none
  | .idle _ _ => none

/-- A fetcher with what it has come through. -/
structure Session where
  /-- The fetcher. -/
  fetcher : Fetcher
  /-- How far it has come with what it was asked to do. -/
  stage : Stage
  /-- Whether its root token was cancelled from outside. -/
  disturbed : Bool
  /-- Its runs that were stopped, the last one first. -/
  ended : List World

namespace Session

/-- A fetcher that has come through nothing. -/
def make (config : Config) (token : Token) (store : Store) (publisher : Publisher) : Session :=
  ⟨.make config token store publisher, .free, token.cancelled, []⟩

/-- What a deed makes of it; nothing if it cannot be done.  A start of a fetcher that runs is
refused, as is one that cannot read the store, and a stop of one that does not run has nothing
to do. -/
def step (s : Session) (d : Deed) : Option Session :=
  match s.stage, d with
  | .free, .start unread =>
      match s.fetcher.prepare (s.fetcher.reading unread) with
      | .error _ => some s
      | .ok (latest, f) => some { s with fetcher := f, stage := .starting latest }
  | .starting latest, .launch head =>
      some { s with fetcher := s.fetcher.launch latest head, stage := .free }
  | _, .task m => (s.fetcher.afterTask m).map fun f => { s with fetcher := f }
  | _, .cancel => some { s with fetcher := s.fetcher.cancelRoot, disturbed := true }
  | .free, .stop =>
      if s.fetcher.isRunning then
        some { s with fetcher := s.fetcher.requestStop, stage := .stopping }
      else some s
  | .stopping, .finish =>
      match s.fetcher.engine with
      | .running w =>
          if w.isFinished then
            some { s with fetcher := s.fetcher.finishStop.2, stage := .free, ended := w :: s.ended }
          else none
      | .idle _ _ => none
  | _, _ => none

/-- What deeds make of it, one after the other. -/
def after (s : Session) (ds : List Deed) : Option Session := ds.foldlM step s

end Session

/-! ### The steps of a fetcher -/

variable {f f' : Fetcher} {w w' : World} {m : Move}

theorem isRunning_iff : f.isRunning ↔ ∃ w, f.engine = .running w := by
  unfold isRunning
  rcases f.engine with ⟨standing, planner⟩ | w
  · simp [Engine.world?]
  · simp [Engine.world?]

theorem engine_of_not_isRunning (h : ¬ f.isRunning) :
    ∃ standing planner, f.engine = .idle standing planner := by
  rcases hengine : f.engine with ⟨standing, planner⟩ | w
  · exact ⟨standing, planner, rfl⟩
  · exact absurd (isRunning_iff.mpr ⟨w, hengine⟩) h

/-! ### The root token -/

theorem token_of_not_isRunning (h : ¬ f.isRunning) : f.token = f.baseToken := by
  obtain ⟨standing, planner, hengine⟩ := engine_of_not_isRunning h
  unfold token
  rw [hengine]

theorem token_of_running (h : f.engine = .running w) :
    f.token = { f.baseToken with cancelled := w.shared.shutdown.root } := by
  unfold token
  rw [h]

theorem id_token (f : Fetcher) : f.token.id = f.baseToken.id := by
  unfold token
  cases f.engine <;> rfl

/-- It can be cancelled at any time, with and without a run. -/
theorem token_cancelRoot (f : Fetcher) : f.cancelRoot.token = f.token.cancel := by
  unfold token cancelRoot
  cases f.engine <;> rfl

theorem isRunning_cancelRoot (f : Fetcher) : f.cancelRoot.isRunning = f.isRunning := by
  unfold isRunning cancelRoot
  cases f.engine <;> rfl

theorem store_cancelRoot (f : Fetcher) : f.cancelRoot.store = f.store := by
  unfold store cancelRoot
  cases f.engine <;> rfl

/-! ### Starts and tasks -/

/-- A start that is not refused has read the latest height, and has changed nothing but the
last committed one. -/
theorem prepare_reading {unread : Option Failure} {latest : Option ℕ}
    (h : f.prepare (f.reading unread) = .ok (latest, f')) :
    ¬ f.isRunning ∧ ¬ f'.isRunning ∧ latest = f'.store.latestHeight ∧ f'.token = f.token := by
  cases unread with
  | some failure =>
    unfold prepare at h
    split at h <;> cases h
  | none =>
    obtain ⟨rfl, standing, planner, hengine, rfl⟩ := prepare_eq_ok h
    have hidle : ¬ f.isRunning := by
      rw [isRunning_iff, hengine]
      rintro ⟨w, hw⟩
      cases hw
    have hstore : f.store = standing.store := by
      unfold store
      rw [hengine]
      rfl
    exact ⟨hidle, nofun, congrArg Store.latestHeight hstore, (token_of_not_isRunning hidle).symm⟩

/-- A fetcher that does not run is started if the store can be read. -/
theorem prepare_of_not_isRunning (h : ¬ f.isRunning) :
    ∃ f', f.prepare (f.reading none) = .ok (f.store.latestHeight, f') := by
  unfold prepare
  rw [if_neg h]
  exact ⟨_, rfl⟩

theorem afterTask_eq_some (h : f.afterTask m = some f') :
    ∃ w w', f.engine = .running w ∧ m.ofTask ∧ w.Moved m w' ∧
      f' = { f with engine := .running w' } := by
  unfold afterTask at h
  split at h
  · next w hengine =>
    split_ifs at h with htask
    obtain ⟨w', hmove, rfl⟩ := Option.map_eq_some_iff.mp h
    exact ⟨w, w', hengine, htask, World.move_cases hmove, rfl⟩
  · cases h

/-- A task cancels the root token when it captures a failure, and in no other way. -/
theorem root_iff_of_task {P : Prop} (hmove : w.Moved m w') (htask : m.ofTask)
    (h : w.shared.shutdown.root ↔ P ∨ w.shared.shutdown.fatal.isSome) :
    w'.shared.shutdown.root ↔ P ∨ w'.shared.shutdown.fatal.isSome := by
  refine World.shutdown_induction (P := fun d => d.root ↔ P ∨ d.fatal.isSome) ?_ hmove h ?_ ?_
  · intro d origin failure hd
    rcases hfatal : d.fatal with _ | c
    · simp [Shutdown.capture_of_none hfatal]
    · rw [Shutdown.capture_of_some hfatal]
      exact hd
  · rintro rfl
    cases htask
  · rintro rfl
    cases htask

/-- A run that nothing has happened to, under a token that is cancelled or not. -/
structure Fresh (cancelled : Bool) (w : World) : Prop where
  /-- Both tokens are as the root token was, and no failure is kept. -/
  shutdown : w.shared.shutdown = .start cancelled
  /-- No range is claimed. -/
  claimed : w.shared.planner.claimed.values = []
  /-- No range is released. -/
  released : w.shared.planner.released.values = []

theorem fresh_launch {latest : Option ℕ} {head : Except Failure ℕ}
    (hidle : ¬ f.isRunning) (hlaunch : (f.launch latest head).engine = .running w) :
    Fresh f.token.cancelled w := by
  rw [token_of_not_isRunning hidle]
  cases hlaunch
  cases head with
  | error e => exact ⟨rfl, rfl, rfl⟩
  | ok n =>
    obtain ⟨-, -, hclaimed, hreleased⟩ :=
      Planner.sameRanges_observe (f.sharedAtStart latest).planner n
    exact ⟨rfl, congrArg HeightMap.values hclaimed, congrArg HeightMap.values hreleased⟩

/-! ### The invariant -/

/-- What a fetcher has come to suits what it was asked to do. -/
def Stage.Suits (f : Fetcher) : Stage → Prop
  | .free => True
  | .starting latest => ¬ f.isRunning ∧ latest = f.store.latestHeight
  | .stopping => f.isRunning

theorem Stage.Suits.congr {stage : Stage} (h : stage.Suits f)
    (hrunning : f'.isRunning = f.isRunning) (hstore : f'.store = f.store) : stage.Suits f' := by
  cases stage with
  | free => trivial
  | starting latest => exact ⟨hrunning ▸ h.1, hstore ▸ h.2⟩
  | stopping => exact hrunning.trans h

/-- Tasks only run while the fetcher is not being started. -/
theorem Stage.Suits.of_running {stage : Stage} (h : stage.Suits f) (hrunning : f.isRunning)
    (hrunning' : f'.isRunning) : stage.Suits f' := by
  cases stage with
  | free => trivial
  | starting latest => exact absurd hrunning h.1
  | stopping => exact hrunning'

namespace Session

variable {s s' : Session} {d : Deed}

/-- One of the runs that were stopped had kept a failure: its stop has reported one. -/
def Aborted (s : Session) : Prop := ∃ v ∈ s.ended, v.shared.shutdown.fatal.isSome

/-- The root token is cancelled from outside or by a run that fails, and in no other way. -/
structure Kept (s : Session) : Prop where
  /-- The fetcher is where it was asked to go. -/
  suits : s.stage.Suits s.fetcher
  /-- Between runs it was cancelled from outside, or by a run that was stopped since. -/
  idle : ¬ s.fetcher.isRunning → (s.fetcher.token.cancelled ↔ s.disturbed ∨ s.Aborted)
  /-- During a run this one may have cancelled it, too. -/
  running : ∀ w, s.fetcher.engine = .running w →
    (s.fetcher.token.cancelled ↔ (s.disturbed ∨ s.Aborted) ∨ w.shared.shutdown.fatal.isSome)

theorem kept_make (config : Config) (token : Token) (store : Store) (publisher : Publisher) :
    (make config token store publisher).Kept := by
  refine ⟨trivial, fun _ => ⟨Or.inl, fun h => h.resolve_right ?_⟩, ?_⟩
  · rintro ⟨v, hv, -⟩
    exact absurd hv List.not_mem_nil
  · intro w hengine
    cases hengine

namespace Kept

variable (h : s.Kept)
include h

theorem start {unread : Option Failure} {latest : Option ℕ} {f : Fetcher}
    (hprepare : s.fetcher.prepare (s.fetcher.reading unread) = .ok (latest, f)) :
    Kept { s with fetcher := f, stage := .starting latest } := by
  obtain ⟨hidle, hidle', hlatest, htoken⟩ := prepare_reading hprepare
  refine ⟨⟨hidle', hlatest⟩, fun _ => ?_, fun w hw => ?_⟩
  · rw [htoken]
    exact h.idle hidle
  · exact absurd (isRunning_iff.mpr ⟨w, hw⟩) hidle'

theorem launch {latest : Option ℕ} (hstage : s.stage = .starting latest)
    (head : Except Failure ℕ) :
    Kept { s with fetcher := s.fetcher.launch latest head, stage := .free } := by
  have hsuits := h.suits
  rw [hstage] at hsuits
  refine ⟨trivial, fun hidle => absurd rfl hidle, fun w hw => ?_⟩
  have hbefore := h.idle hsuits.1
  rw [token_of_running hw, (fresh_launch hsuits.1 hw).shutdown]
  exact hbefore.trans ⟨Or.inl, fun hor => hor.resolve_right nofun⟩

theorem task {m : Move} {f : Fetcher} (hafter : s.fetcher.afterTask m = some f) :
    Kept { s with fetcher := f } := by
  obtain ⟨w, w', hengine, htask, hmove, rfl⟩ := afterTask_eq_some hafter
  have hrunning : s.fetcher.isRunning := isRunning_iff.mpr ⟨w, hengine⟩
  refine ⟨h.suits.of_running hrunning rfl, fun hidle => absurd rfl hidle, fun v hv => ?_⟩
  have hbefore := h.running w hengine
  rw [token_of_running hengine] at hbefore
  cases hv
  exact root_iff_of_task hmove htask hbefore

theorem cancel : Kept { s with fetcher := s.fetcher.cancelRoot, disturbed := true } := by
  have hcancelled : s.fetcher.cancelRoot.token.cancelled := by
    rw [token_cancelRoot]
    rfl
  refine ⟨h.suits.congr (isRunning_cancelRoot _) (store_cancelRoot _), fun _ => ?_, fun w _ => ?_⟩
  · exact iff_of_true hcancelled (Or.inl rfl)
  · exact iff_of_true hcancelled (Or.inl (Or.inl rfl))

theorem stop (hrunning : s.fetcher.isRunning) :
    Kept { s with fetcher := s.fetcher.requestStop, stage := .stopping } := by
  obtain ⟨w, hengine⟩ := isRunning_iff.mp hrunning
  have hbefore := h.running w hengine
  rw [token_of_running hengine] at hbefore
  have hstop : s.fetcher.requestStop = { s.fetcher with engine := .running w.cancelRun } := by
    unfold requestStop
    rw [hengine]
  rw [hstop]
  refine ⟨rfl, fun hidle => absurd rfl hidle, fun v hv => ?_⟩
  cases hv
  exact hbefore

theorem finish (hengine : s.fetcher.engine = .running w) : Kept { s with
    fetcher := s.fetcher.finishStop.2, stage := .free, ended := w :: s.ended } := by
  have hfinish : s.fetcher.finishStop.2 = { s.fetcher with
      baseToken := s.fetcher.token
      engine := .idle w.shared.toStanding (some w.shared.planner) } := by
    unfold finishStop
    rw [hengine]
  rw [hfinish]
  refine ⟨trivial, fun _ => ?_, fun v hv => ?_⟩
  · show s.fetcher.token.cancelled
      ↔ s.disturbed ∨ ∃ v ∈ w :: s.ended, v.shared.shutdown.fatal.isSome
    rw [h.running w hengine, List.exists_mem_cons_iff, or_assoc]
    exact or_congr_right or_comm
  · cases hv

/-- **Every deed keeps the invariant.** -/
theorem step (hstep : s.step d = some s') : s'.Kept := by
  unfold Session.step at hstep
  split at hstep
  case h_1 unread hstage =>
    split at hstep
    · cases hstep
      exact h
    · next latest f hprepare =>
      cases hstep
      exact h.start hprepare
  case h_2 latest head hstage =>
    cases hstep
    exact h.launch hstage head
  case h_3 m =>
    obtain ⟨f, htask, rfl⟩ := Option.map_eq_some_iff.mp hstep
    exact h.task htask
  case h_4 =>
    cases hstep
    exact h.cancel
  case h_5 hstage =>
    split_ifs at hstep with hrunning
    · cases hstep
      exact h.stop hrunning
    · cases hstep
      exact h
  case h_6 hstage =>
    split at hstep
    · next w hengine =>
      split_ifs at hstep
      cases hstep
      exact h.finish hengine
    · cases hstep
  case h_7 => cases hstep

end Kept

theorem disturbed_step (hstep : s.step d = some s') (hd : d ≠ .cancel) :
    s'.disturbed = s.disturbed := by
  unfold step at hstep
  split at hstep
  case h_1 =>
    split at hstep <;> cases hstep <;> rfl
  case h_2 =>
    cases hstep
    rfl
  case h_3 =>
    obtain ⟨f, -, rfl⟩ := Option.map_eq_some_iff.mp hstep
    rfl
  case h_4 => exact absurd rfl hd
  case h_5 =>
    split_ifs at hstep <;> cases hstep <;> rfl
  case h_6 =>
    split at hstep
    · split_ifs at hstep
      cases hstep
      rfl
    · cases hstep
  case h_7 => cases hstep

/-! ### The law -/

/-- **Where a start leads.** -/
structure Restarts (s : Session) : Prop where
  /-- A fetcher that does not run is started if the store says what is stored. -/
  accepted : s.stage = .free → ¬ s.fetcher.isRunning → ∃ s', s.step (.start none) = some s' ∧
    s'.stage = .starting s.fetcher.store.latestHeight
  /-- A start that has come so far ends in a run above what is stored.  It is cancelled at once
  if and only if the root token was cancelled from outside, or an earlier run was aborted. -/
  begins : ∀ latest head, s.stage = .starting latest → ∃ s' w, s.step (.launch head) = some s' ∧
    s'.stage = .free ∧ s'.fetcher.engine = .running w ∧
    Begins (Height.resume s.fetcher.store.latestHeight) w ∧
    (w.shared.isCancelled ↔ s.disturbed ∨ s.Aborted)

/-- **The invariant gives the law.** -/
theorem Kept.restarts (h : s.Kept) : s.Restarts := by
  refine ⟨fun hstage hidle => ?_, fun latest head hstage => ?_⟩
  · obtain ⟨f, hprepare⟩ := prepare_of_not_isRunning hidle
    refine ⟨{ s with fetcher := f, stage := .starting s.fetcher.store.latestHeight }, ?_, rfl⟩
    unfold Session.step
    rw [hstage]
    simp only [hprepare]
  · have hsuits := h.suits
    rw [hstage] at hsuits
    obtain ⟨w, hw⟩ : ∃ w, (s.fetcher.launch latest head).engine = .running w := ⟨_, rfl⟩
    refine ⟨{ s with fetcher := s.fetcher.launch latest head, stage := .free }, w, ?_, rfl, hw, ?_,
      ?_⟩
    · unfold Session.step
      rw [hstage]
    · exact hsuits.2 ▸ begins_resume hw
    · unfold Shared.isCancelled
      rw [(fresh_launch hsuits.1 hw).shutdown]
      exact h.idle hsuits.1

end Session

/-- **Every start begins a run above what is stored, and the run is cancelled at once if and
only if the root token was cancelled or an earlier run was aborted.**  However a fetcher that
is used alone has come to where it is. -/
theorem restarts_after {config : Config} {token : Token} {store : Store} {publisher : Publisher}
    {ds : List Deed} {s : Session}
    (h : (Session.make config token store publisher).after ds = some s) :
    s.Restarts ∧ (.cancel ∉ ds → s.disturbed = token.cancelled) := by
  have hkept : s.Kept := foldlM_induction h (Session.kept_make config token store publisher)
    fun _ _ _ _ hx hstep => hx.step hstep
  refine ⟨hkept.restarts, fun hcancel => ?_⟩
  refine foldlM_induction h (P := fun x => x.disturbed = token.cancelled) rfl ?_
  intro d hd x x' hx hstep
  exact (Session.disturbed_step hstep (ne_of_mem_of_not_mem hd hcancel)).trans hx

/-! ### A life with one block -/

/-- A worker fetches the first block, and the sequencer has written it, or has not. -/
def firstBlock (written : Except Failure Unit) : List Deed :=
  [.task (.worker 0 .turn), .task (.worker 0 (.block (.ok ⟨1, "", "", "", [], .null⟩))),
    .task (.worker 0 (.results (.ok ⟨1, []⟩))), .task (.worker 0 .turn), .task (.worker 0 .turn),
    .task (.sequencer .turn), .task (.sequencer .turn), .task (.sequencer (.written written))]

/-- One worker, small chunks, and no write is repeated. -/
def frugal : Config :=
  ⟨⟨"http://node", "db", 1, 1, 1, 1, 1, 1, 1, ⟨1, 1, 1⟩, ⟨1, 1, 1⟩⟩, by decide +kernel⟩

/-- A fetcher over an empty store. -/
def Session.lone : Session := make frugal (.fresh 0) .empty (.start 1 Nat.one_pos)

/-- The first block is committed, and the fetcher is stopped and started again. -/
theorem restarts_after_stop :
    let ds := [.start none, .launch (.ok 2)] ++ firstBlock (.ok ()) ++
      [.stop, .task (.worker 0 .turn), .task (.sequencer .cancel), .task (.sequencer .turn),
        .task (.refresher .cancel), .finish, .start none]
    ∃ s s' w, Session.lone.after ds = some s ∧ .cancel ∉ ds ∧ s.ended.length = 1 ∧ s.Restarts ∧
      s.step (.launch (.ok 2)) = some s' ∧ s'.fetcher.engine = .running w ∧ Begins 2 w ∧
      ¬ w.shared.isCancelled := by
  intro ds
  have hstopped : (Session.lone.after ds).map (fun s => (s.stage, s.fetcher.store.latestHeight,
      s.ended.map fun v => v.shared.shutdown.fatal))
        = some (.starting (some 1), some 1, [none]) := by
    decide +kernel
  obtain ⟨s, hs, hview⟩ := Option.map_eq_some_iff.mp hstopped
  obtain ⟨hstage, hview⟩ := Prod.mk.inj hview
  obtain ⟨hlatest, hended⟩ := Prod.mk.inj hview
  have hcancel : Deed.cancel ∉ ds := by simp [ds, firstBlock]
  obtain ⟨hrestarts, hundisturbed⟩ := restarts_after hs
  obtain ⟨s', w, hlaunch, -, hengine, hbegins, hcancelled⟩ := hrestarts.begins _ (.ok 2) hstage
  rw [hlatest] at hbegins
  refine ⟨s, s', w, hs, hcancel, by simpa using congrArg List.length hended, hrestarts, hlaunch,
    hengine, hbegins, fun h => ?_⟩
  rcases hcancelled.mp h with hdisturbed | ⟨v, hv, hfatal⟩
  · rw [hundisturbed hcancel] at hdisturbed
    cases hdisturbed
  · have hmem := List.mem_map_of_mem (f := fun v : World => v.shared.shutdown.fatal) hv
    rw [hended, List.mem_singleton] at hmem
    rw [hmem] at hfatal
    cases hfatal

/-- The write of the first block fails, and the run is aborted.  The fetcher is stopped and
started again, and nobody has cancelled anything.  The start succeeds, and its run is cancelled
as it begins. -/
theorem restarts_after_abort :
    let ds := [.start none, .launch (.ok 2)] ++ firstBlock (.error (.ofText "disk full")) ++
      [.stop, .task (.worker 0 .turn), .task (.refresher .cancel), .finish, .start none,
        .launch (.ok 2)]
    .cancel ∉ ds ∧ ∃ s w, Session.lone.after ds = some s ∧ s.stage = .free ∧
      s.fetcher.engine = .running w ∧ w.shared.isCancelled := by
  intro ds
  have hcancelled : (Session.lone.after ds).map (fun s => (s.stage,
      s.fetcher.engine.world?.map fun w => w.shared.isCancelled)) = some (.free, some true) := by
    decide +kernel
  obtain ⟨s, hs, hview⟩ := Option.map_eq_some_iff.mp hcancelled
  obtain ⟨hstage, hview⟩ := Prod.mk.inj hview
  obtain ⟨w, hworld, hcancel⟩ := Option.map_eq_some_iff.mp hview
  refine ⟨by simp [ds, firstBlock], s, w, hs, hstage, ?_, hcancel⟩
  rcases hengine : s.fetcher.engine with ⟨standing, planner⟩ | v
  · rw [hengine] at hworld
    cases hworld
  · rw [hengine] at hworld
    cases hworld
    rfl

end Fetcher
end BlockIngest
