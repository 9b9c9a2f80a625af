import BlockIngest.Pipeline.Fetcher
import BlockIngest.Proofs.Pipeline.Move

/-!
# A run that goes on has all its tasks

As long as a run is not told to end, every worker and the sequencer go on.  A worker
that fails or breaks off, and a sequencer that gives up, end the whole run: their
failure is kept as the fatal one, and both tokens are cancelled in the same step.
There is no other way for them to end, so that a run never goes on with fewer
workers than it was launched with.  The counter of workers goes down in the step in
which one of them ends, and so it always says how many have not.

## Main definitions

* `Shutdown.Sound`, `Shutdown.Keeps` — a failure that is kept has cancelled both
  tokens, and a failure is kept.
* `World.unended` — how many workers have not ended.
* `World.Manned` — the invariant.
* `World.Staffed` — the law.

## Main results

* `World.remaining_unended` — the counter keeps to the number of workers.
* `World.Manned.move` — **every move keeps the invariant.**
* `World.staffed_of_launch` — **a run that goes on is never degraded.**
-/

namespace BlockIngest

/-! ### Fatal failures -/

namespace Shutdown

variable {s s' : Shutdown} {origin : FatalOrigin} {failure : Failure}

/-- A failure that was kept has cancelled both tokens. -/
def Sound (s : Shutdown) : Prop := s.fatal.isSome → s.run ∧ s.root

/-- A failure is kept as the first one, and cancels both tokens. -/
def Keeps (s : Shutdown) (c : Capture) (s' : Shutdown) : Prop :=
  s.fatal = none ∧ s' = ⟨true, true, some c⟩

theorem Sound.fatal_eq_none (h : s.Sound) (hrun : ¬ s.run) : s.fatal = none :=
  Option.not_isSome_iff_eq_none.mp fun hfatal => hrun (h hfatal).1

theorem capture_of_none (h : s.fatal = none) :
    s.capture origin failure =
      ((Capture.mk origin failure).error, ⟨true, true, some ⟨origin, failure⟩⟩) := by
  unfold capture
  rw [h]

theorem capture_of_some {c : Capture} (h : s.fatal = some c) :
    s.capture origin failure = (failure, s) := by
  unfold capture
  rw [h]

theorem Sound.capture (h : s.Sound) (origin : FatalOrigin) (failure : Failure) :
    (s.capture origin failure).2.Sound ∧ (s.capture origin failure).2.run := by
  rcases hfatal : s.fatal with _ | c
  · rw [capture_of_none hfatal]
    exact ⟨fun _ => ⟨rfl, rfl⟩, rfl⟩
  · rw [capture_of_some hfatal]
    exact ⟨h, (h (by rw [hfatal]; rfl)).1⟩

theorem sound_start (root : Bool) : (start root).Sound := by
  intro hfatal
  cases hfatal

end Shutdown

/-! ### How a worker ends -/

namespace Shared

theorem shutdown_giveUp (s : Shared) (r : ChunkRange) : (s.giveUp r).shutdown = s.shutdown := by
  unfold giveUp
  split <;> rfl

end Shared

namespace Worker

variable {settings : Settings} {id : ℕ} {s s' : Shared} {phase next : WorkerPhase}
  {signal : WorkerSignal}

/-- A worker leaves it to its supervision to end a run. -/
theorem shutdown_step (h : Step settings id s phase signal next s') : s'.shutdown = s.shutdown := by
  cases h with
  | gaveUp | behind => exact Shared.shutdown_giveUp _ _
  | stopped | claimed | overflowed | rested | rose | received | fetched | completed | misfit
  | paused | retried | abandoned | panicked | listened | admitted | dropped | refused | told
  | withdrew => rfl

/-- A worker ends only if the run was cancelled, or with a fault. -/
theorem fault_of_exit {exit : WorkerExit} (h : Step settings id s phase signal (.exited exit) s') :
    s.isCancelled ∨ ∃ context failure, World.workerFault? id exit = some (context, failure) := by
  cases h with
  | stopped hphase hcancel => exact Or.inl hcancel
  | abandoned hjob hcancel => exact Or.inl hcancel
  | withdrew hcancel => exact Or.inl hcancel
  | overflowed | misfit | panicked => exact Or.inr ⟨_, _, rfl⟩

/-- A worker that does a step has not ended. -/
theorem workerExit?_of_step (h : Step settings id s phase signal next s') :
    World.workerExit? phase = none := by
  cases h with
  | stopped hphase => rcases hphase with ⟨rfl, -⟩ | ⟨rfl, -⟩ <;> rfl
  | paused hfails | gaveUp hfails | behind hfails => cases hfails <;> rfl
  | abandoned hjob => cases phase <;> cases hjob <;> rfl
  | panicked hcalling => rcases hcalling with rfl | ⟨b, rfl⟩ <;> rfl
  | claimed | overflowed | rested | rose | received | fetched | completed | misfit | retried
  | listened | admitted | dropped | refused | told | withdrew => rfl

end Worker

/-! ### How the sequencer ends -/

/-- Whether the sequencer is still at work. -/
def SequencerPhase.Working : SequencerPhase → Prop
  | .draining => False
  | .exited _ => False
  | _ => True

namespace Sequencer

variable {q q' : Sequencer} {s s' : Shared} {signal : SequencerSignal}

theorem working_beginHeight (q : Sequencer) (s : Shared) (fs : List FetchedBlock) :
    (q.beginHeight s fs).phase.Working ∨ s.isCancelled := by
  unfold beginHeight
  split
  · exact Or.inl trivial
  · split
    · next hcancel => exact Or.inr hcancel
    · exact Or.inl trivial

/-- A sequencer at work goes on, unless the run was cancelled or it fails. -/
theorem working_step (h : Step q s signal q' s') (hq : q.phase.Working) :
    q'.phase.Working ∨ s.isCancelled ∨ ∃ failure, q'.phase = .exited (.error failure) := by
  cases h with
  | listened | missed | woke | wrote | paused | retried => exact Or.inl trivial
  | took | stored => exact (working_beginHeight _ _ _).imp_right Or.inl
  | brokeOff | gaveUp => exact Or.inr (Or.inr ⟨_, rfl⟩)
  | left hphase hcancel | stopped hphase hcancel => exact Or.inr (Or.inl hcancel)
  | ended hphase =>
    rw [hphase] at hq
    exact hq.elim

/-- It begins to drain the buffer only if the run was cancelled. -/
theorem cancelled_of_draining (h : Step q s signal q' s') (hphase : q'.phase = .draining) :
    s.isCancelled := by
  have hended : ¬ q'.phase.Working := by
    rw [hphase]
    exact id
  cases h with
  | took => exact (working_beginHeight _ _ _).resolve_left hended
  | stored => exact (working_beginHeight _ _ _).resolve_left hended
  | left hphase hcancel | stopped hphase hcancel => exact hcancel
  | listened | brokeOff | missed | woke | wrote | paused | gaveUp | retried | ended => cases hphase

/-- The sequencer ends a run by itself only when it gives a height up, and returns the
failure as it was captured. -/
theorem shutdown_step (h : Step q s signal q' s') :
    s'.shutdown = s.shutdown ∨ ∃ origin failure,
      q'.phase = .exited (.error (s.shutdown.capture origin failure).1) ∧
        s'.shutdown = (s.shutdown.capture origin failure).2 := by
  cases h with
  | gaveUp => exact Or.inr ⟨_, _, rfl, rfl⟩
  | listened | took | brokeOff | missed | woke | left | wrote | stored | paused | retried | stopped
  | ended => exact Or.inl rfl

/-- What every capture keeps is kept by a step. -/
theorem shutdown_induction {P : Shutdown → Prop} (hstep : Step q s signal q' s')
    (h : P s.shutdown)
    (hcapture : ∀ d origin failure, P d → P (Shutdown.capture d origin failure).2) :
    P s'.shutdown := by
  rcases shutdown_step hstep with hsame | ⟨origin, failure, -, hcaptured⟩
  · rwa [hsame]
  · rw [hcaptured]
    exact hcapture _ _ _ h

end Sequencer

/-! ### The invariant -/

namespace World

variable {slots : ℕ} {w w' : World} {m : Move}

/-! What becomes of the tokens and of the failure that is kept, in any move: a move captures
failures, one after the other, or is one of the two cancellations. -/

section
variable {P : Shutdown → Prop}
  (hcapture : ∀ d origin failure, P d → P (Shutdown.capture d origin failure).2)
include hcapture

theorem attended_induction {settings : RunSettings} {id : ℕ} {next : WorkerPhase} {s : Shared}
    (h : P s.shutdown) : P (attended settings id next s).shutdown := by
  unfold attended workerEnded
  split
  · split
    · split
      · rw [Shutdown.taskFailed_eq]
        exact hcapture _ _ _ h
      · exact h
    · exact h
  · exact h

theorem closed_induction {settings : RunSettings} {q : Sequencer} {s : Shared}
    (h : P s.shutdown) : P (closed settings q s).2.shutdown := by
  unfold closed sequencerEnded
  split
  · split
    · exact h
    · split
      · rw [Shutdown.taskFailed_eq]
        exact hcapture _ _ _ h
      · exact h
  · exact h

/-- What every capture and both cancellations keep is kept by a move. -/
theorem shutdown_induction (hmove : w.Moved m w') (h : P w.shared.shutdown)
    (hrun : m = .cancelRun → ∀ d, P d → P (Shutdown.cancelRun d))
    (hroot : m = .cancelRoot → ∀ d, P d → P (Shutdown.cancelRoot d)) : P w'.shared.shutdown := by
  cases hmove with
  | worker hphase hstep =>
    exact attended_induction hcapture ((Worker.shutdown_step hstep).symm ▸ h)
  | sequencer hstep =>
    exact closed_induction hcapture (Sequencer.shutdown_induction hstep h hcapture)
  | @heard answer => cases answer <;> exact h
  | refreshed => exact h
  | cancelRun => exact hrun rfl _ h
  | cancelRoot => exact hroot rfl _ h

end

/-- A run that is cancelled stays so. -/
theorem cancelled_move (hmove : w.Moved m w') (hcancel : w.shared.isCancelled) :
    w'.shared.isCancelled :=
  shutdown_induction (P := fun d => d.run)
    (fun _ origin failure hd => run_capture hd origin failure) hmove hcancel
    (fun _ _ _ => rfl) fun _ _ _ => rfl

/-- How many workers have not ended. -/
def unended (phases : List WorkerPhase) : ℕ :=
  phases.countP fun phase => (workerExit? phase).isNone

theorem workerExit?_of_running {next : WorkerPhase} (h : ∀ exit, next ≠ .exited exit) :
    workerExit? next = none := by
  cases next with
  | exited exit => exact absurd rfl (h exit)
  | ready | idle | awaitingBlock | awaitingResults | pausing | submitting => rfl

/-- The counter keeps to the number of workers that have not ended. -/
theorem remaining_unended {phases : List WorkerPhase} {id : ℕ} {phase next : WorkerPhase}
    (hphase : phases[id]? = some phase) (hrunning : workerExit? phase = none) :
    remaining (unended phases) next = unended (phases.set id next) := by
  obtain ⟨hlt, rfl⟩ := List.getElem?_eq_some_iff.mp hphase
  have hpos : 0 < unended phases :=
    List.countP_pos_iff.mpr ⟨_, List.getElem_mem hlt, Option.isNone_iff_eq_none.mpr hrunning⟩
  unfold unended at hpos ⊢
  rw [List.countP_set hlt, if_pos (Option.isNone_iff_eq_none.mpr hrunning)]
  by_cases hended : ∃ exit, next = .exited exit
  · obtain ⟨exit, rfl⟩ := hended
    rfl
  · have hnext := not_exists.mp hended
    rw [remaining_of_running hnext, if_pos (Option.isNone_iff_eq_none.mpr
      (workerExit?_of_running hnext)), Nat.sub_add_cancel hpos]

/-- A run that is not cancelled has all its tasks. -/
structure Manned (slots : ℕ) (w : World) : Prop where
  /-- Tasks that fail end the run. -/
  supervised : w.settings.supervised
  /-- There are as many workers as at the start. -/
  length_eq : w.workers.length = slots
  /-- Those that have not ended are counted. -/
  counted : w.activeWorkers = unended w.workers
  /-- A failure that is kept has cancelled the run. -/
  shutdown : w.shared.shutdown.Sound
  /-- No worker has ended. -/
  workers : ¬ w.shared.isCancelled → ∀ phase ∈ w.workers, (workerExit? phase).isNone
  /-- The sequencer is at work. -/
  sequencer : ¬ w.shared.isCancelled → w.sequencer.phase.Working

/-- A worker that ends in failure ends the run. -/
theorem shutdown_attended {settings : RunSettings} {id : ℕ} {exit : WorkerExit} {s : Shared}
    {context : String} {failure : Failure} (hsupervised : settings.supervised)
    (hfault : workerFault? id exit = some (context, failure)) :
    (attended settings id (.exited exit) s).shutdown
      = (s.shutdown.capture (.task context) failure).2 := by
  unfold attended workerEnded
  simp only [hfault, hsupervised, if_true, Shutdown.taskFailed_eq]

/-- A worker that goes on, or that ends for no fault, does not. -/
theorem attended_eq {settings : RunSettings} {id : ℕ} {next : WorkerPhase} {s : Shared}
    (h : (workerExit? next).bind (workerFault? id) = none) : attended settings id next s = s := by
  unfold attended
  split
  · next exit =>
    have hfault : workerFault? id exit = none := h
    unfold workerEnded
    rw [hfault]
  · rfl

/-- A sequencer that ends in failure ends the run. -/
theorem closed_of_error {settings : RunSettings} {q : Sequencer} {s : Shared} {failure : Failure}
    (hsupervised : settings.supervised) (hphase : q.phase = .exited (.error failure)) :
    closed settings q s =
      (q.goTo (.exited (.error
        (s.shutdown.capture (.task "sequencer exited with error") failure).1)),
        { s with shutdown :=
          (s.shutdown.capture (.task "sequencer exited with error") failure).2 }) := by
  unfold closed sequencerEnded
  simp only [hphase, hsupervised, if_true, Shutdown.taskFailed_eq]

/-- A sequencer that goes on, or that ends without a failure, does not. -/
theorem closed_eq {settings : RunSettings} {q : Sequencer} {s : Shared}
    (h : ∀ failure, q.phase ≠ .exited (.error failure)) : closed settings q s = (q, s) := by
  unfold closed
  split
  · next result hphase =>
    cases result with
    | error failure => exact absurd hphase (h failure)
    | ok =>
      have hsame : q.goTo (.exited (.ok ())) = q := by
        unfold Sequencer.goTo
        rw [← hphase]
      exact Prod.ext hsame rfl
  · rfl

/-- **The law of a run with a number of workers.** -/
structure Staffed (slots : ℕ) (w : World) : Prop where
  /-- The counter of workers says how many of them have not ended. -/
  counted : w.activeWorkers = w.workers.countP fun phase => (workerExit? phase).isNone
  /-- Unless the run was cancelled, all workers and the sequencer are active. -/
  live : ¬ w.shared.isCancelled → w.activeWorkers = slots ∧ w.sequencerResult? = none
  /-- A worker ends only after the run was cancelled, or its fault is kept in the same
  move and cancels both tokens. -/
  worker_ends : ∀ m w' id exit, w.move m = some w' → w.workers[id]?.bind workerExit? = none →
    w'.workers[id]? = some (.exited exit) → w.shared.isCancelled ∨
      ∃ context failure, workerFault? id exit = some (context, failure) ∧
        w.shared.shutdown.Keeps ⟨.task context, failure⟩ w'.shared.shutdown
  /-- So does the sequencer, which returns the failure that is kept. -/
  sequencer_ends : ∀ m w' result, w.move m = some w' → w.sequencerResult? = none →
    w'.sequencerResult? = some result → w.shared.isCancelled ∨
      ∃ c, result = .error c.error ∧ w.shared.shutdown.Keeps c w'.shared.shutdown
  /-- No worker is active once all of them have ended, and not before. -/
  finished : w.activeWorkers = 0 ↔ ∀ id < slots, ∃ exit, w.workers[id]? = some (.exited exit)

namespace Manned

variable (h : w.Manned slots)
include h

theorem worker {id : ℕ} {phase next : WorkerPhase} {signal : WorkerSignal} {s : Shared}
    (hphase : w.workers[id]? = some phase)
    (hstep : Worker.Step w.settings.worker id w.shared phase signal next s) :
    Manned slots { w with
      shared := attended w.settings id next s
      workers := w.workers.set id next
      activeWorkers := remaining w.activeWorkers next } := by
  have hshutdown := Worker.shutdown_step hstep
  have hs : s.shutdown.Sound := hshutdown ▸ h.shutdown
  have hlength : (w.workers.set id next).length = slots := List.length_set.trans h.length_eq
  have hcounted : remaining w.activeWorkers next = unended (w.workers.set id next) := by
    rw [h.counted]
    exact remaining_unended hphase (Worker.workerExit?_of_step hstep)
  rcases hfault : (workerExit? next).bind (workerFault? id) with _ | ⟨context, failure⟩
  · rw [attended_eq hfault]
    have hsame : s.isCancelled = w.shared.isCancelled := congrArg Shutdown.run hshutdown
    refine ⟨h.supervised, hlength, hcounted, hs, fun hrun => ?_,
      fun hrun => h.sequencer (hsame ▸ hrun)⟩
    -- a worker that ends without a fault was told to
    have hnext : (workerExit? next).isNone := by
      rcases hexit : workerExit? next with _ | exit
      · rfl
      · cases next <;> cases hexit
        rcases Worker.fault_of_exit hstep with hcancel | ⟨context, failure, hsome⟩
        · exact absurd (hsame ▸ hcancel) hrun
        · exact absurd (hsome.symm.trans hfault) (by simp)
    intro phase hphase
    rcases List.mem_or_eq_of_mem_set hphase with hold | rfl
    · exact h.workers (hsame ▸ hrun) phase hold
    · exact hnext
  · obtain ⟨exit, hexit, hfault⟩ := Option.bind_eq_some_iff.mp hfault
    cases next <;> cases hexit
    obtain ⟨hsound, hcancel⟩ := hs.capture (.task context) failure
    rw [← shutdown_attended h.supervised hfault] at hsound hcancel
    exact ⟨h.supervised, hlength, hcounted, hsound, fun hrun => absurd hcancel hrun,
      fun hrun => absurd hcancel hrun⟩

theorem sound_step {signal : SequencerSignal} {q : Sequencer} {s : Shared}
    (hstep : Sequencer.Step w.sequencer w.shared signal q s) : s.shutdown.Sound :=
  Sequencer.shutdown_induction hstep h.shutdown fun _ origin failure hd =>
    (hd.capture origin failure).1

theorem sequencer_step {signal : SequencerSignal} {q : Sequencer} {s : Shared}
    (hstep : Sequencer.Step w.sequencer w.shared signal q s) :
    Manned slots { w with
      shared := (closed w.settings q s).2, sequencer := (closed w.settings q s).1 } := by
  have hs := h.sound_step hstep
  by_cases hfail : ∃ failure, q.phase = .exited (.error failure)
  · obtain ⟨failure, hphase⟩ := hfail
    rw [closed_of_error h.supervised hphase]
    obtain ⟨hsound, hcancel⟩ := hs.capture (.task "sequencer exited with error") failure
    exact ⟨h.supervised, h.length_eq, h.counted, hsound, fun hrun => absurd hcancel hrun,
      fun hrun => absurd hcancel hrun⟩
  · rw [closed_eq (not_exists.mp hfail)]
    have hsame : s.shutdown = w.shared.shutdown :=
      (Sequencer.shutdown_step hstep).resolve_right
        fun ⟨origin, failure, hphase, _⟩ => hfail ⟨_, hphase⟩
    have hrun_eq : s.isCancelled = w.shared.isCancelled := congrArg Shutdown.run hsame
    refine ⟨h.supervised, h.length_eq, h.counted, hs, fun hrun => h.workers (hrun_eq ▸ hrun),
      fun hrun => ?_⟩
    rw [hrun_eq] at hrun
    rcases Sequencer.working_step hstep (h.sequencer hrun) with hq | hcancel | hphase
    · exact hq
    · exact absurd hcancel hrun
    · exact absurd hphase hfail

theorem cancel {shutdown : Shutdown} (hshutdown : shutdown.Sound) (hcancel : shutdown.run) :
    Manned slots { w with shared := { w.shared with shutdown := shutdown } } :=
  ⟨h.supervised, h.length_eq, h.counted, hshutdown, fun hrun => absurd hcancel hrun,
    fun hrun => absurd hcancel hrun⟩

/-- **Every move keeps the invariant.** -/
theorem move (hmove : w.Moved m w') : w'.Manned slots := by
  cases hmove with
  | worker hphase hstep => exact h.worker hphase hstep
  | sequencer hstep => exact h.sequencer_step hstep
  | @heard answer phase =>
    have hsame : (Refresher.heard w.shared answer).shutdown = w.shared.shutdown := by
      cases answer <;> rfl
    have hrun_eq : (Refresher.heard w.shared answer).isCancelled = w.shared.isCancelled :=
      congrArg Shutdown.run hsame
    exact ⟨h.supervised, h.length_eq, h.counted, hsame ▸ h.shutdown,
      fun hrun => h.workers (hrun_eq ▸ hrun), fun hrun => h.sequencer (hrun_eq ▸ hrun)⟩
  | refreshed => exact ⟨h.supervised, h.length_eq, h.counted, h.shutdown, h.workers, h.sequencer⟩
  | cancelRun => exact h.cancel (fun hfatal => ⟨rfl, (h.shutdown hfatal).2⟩) rfl
  | cancelRoot => exact h.cancel (fun _ => ⟨rfl, rfl⟩) rfl

/-! ### The law -/

theorem worker_ends {id : ℕ} {exit : WorkerExit} (hmove : w.Moved m w')
    (hbefore : w.workers[id]?.bind workerExit? = none)
    (hafter : w'.workers[id]? = some (.exited exit)) (hrun : ¬ w.shared.isCancelled) :
    ∃ context failure, workerFault? id exit = some (context, failure) ∧
      w.shared.shutdown.Keeps ⟨.task context, failure⟩ w'.shared.shutdown := by
  cases hmove with
  | @worker id' phase next signal s hphase hstep =>
    by_cases hid : id' = id
    · subst hid
      have hlt : id' < w.workers.length := (List.getElem?_eq_some_iff.mp hphase).1
      rw [List.getElem?_set_self hlt] at hafter
      cases hafter
      obtain ⟨context, failure, hfault⟩ := (Worker.fault_of_exit hstep).resolve_left hrun
      have hnone := h.shutdown.fatal_eq_none hrun
      refine ⟨context, failure, hfault, hnone, ?_⟩
      rw [shutdown_attended h.supervised hfault, Worker.shutdown_step hstep,
        Shutdown.capture_of_none hnone]
    · rw [List.getElem?_set_ne hid] at hafter
      rw [hafter] at hbefore
      cases hbefore
  | sequencer | heard | refreshed | cancelRun | cancelRoot =>
    have hafter' : w.workers[id]? = some (.exited exit) := hafter
    rw [hafter'] at hbefore
    cases hbefore

theorem sequencer_ends {result : Except Failure Unit} (hmove : w.Moved m w')
    (hbefore : w.sequencerResult? = none) (hafter : w'.sequencerResult? = some result)
    (hrun : ¬ w.shared.isCancelled) :
    ∃ c, result = .error c.error ∧ w.shared.shutdown.Keeps c w'.shared.shutdown := by
  have hnone := h.shutdown.fatal_eq_none hrun
  cases hmove with
  | @sequencer signal q s hstep =>
    by_cases hfail : ∃ failure, q.phase = .exited (.error failure)
    · obtain ⟨failure, hphase⟩ := hfail
      rw [closed_of_error h.supervised hphase] at hafter ⊢
      cases hafter
      rcases Sequencer.shutdown_step hstep with hsame | ⟨origin, source, hreturned, hcapture⟩
      · rw [hsame, Shutdown.capture_of_none hnone]
        exact ⟨_, rfl, hnone, rfl⟩
      · -- a height that was given up is kept first, and supervision finds it there
        rw [hcapture, Shutdown.capture_of_none hnone, Shutdown.capture_of_some rfl]
        rw [hphase, Shutdown.capture_of_none hnone] at hreturned
        cases hreturned
        exact ⟨_, rfl, hnone, rfl⟩
    · rw [closed_eq (not_exists.mp hfail)] at hafter
      have hq : ¬ q.phase.Working := by
        intro hq
        unfold sequencerResult? at hafter
        split at hafter
        · next result hphase =>
          have hphase' : q.phase = .exited result := hphase
          rw [hphase'] at hq
          exact hq
        · cases hafter
      rcases Sequencer.working_step hstep (h.sequencer hrun) with hworking | hcancel | hphase
      · exact absurd hworking hq
      · exact absurd hcancel hrun
      · exact absurd hphase hfail
  | worker | heard | refreshed | cancelRun | cancelRoot =>
    have hafter' : w.sequencerResult? = some result := hafter
    rw [hafter'] at hbefore
    cases hbefore

theorem live (hrun : ¬ w.shared.isCancelled) :
    w.activeWorkers = slots ∧ w.sequencerResult? = none := by
  refine ⟨h.counted.trans ((List.countP_eq_length.mpr (h.workers hrun)).trans h.length_eq), ?_⟩
  have hworking := h.sequencer hrun
  unfold sequencerResult?
  split
  · next result hphase =>
    rw [hphase] at hworking
    exact hworking.elim
  · rfl

theorem finished :
    w.activeWorkers = 0 ↔ ∀ id < slots, ∃ exit, w.workers[id]? = some (.exited exit) := by
  rw [h.counted, unended, List.countP_eq_zero]
  constructor
  · intro hall id hid
    have hlt : id < w.workers.length := h.length_eq.symm ▸ hid
    have hended := hall _ (List.getElem_mem hlt)
    rcases hphase : w.workers[id] with _ | _ | _ | _ | _ | _ | exit
    case exited => exact ⟨exit, by rw [List.getElem?_eq_getElem hlt, hphase]⟩
    all_goals
      rw [hphase] at hended
      exact absurd rfl hended
  · intro hall phase hphase
    obtain ⟨id, hid⟩ := List.mem_iff_getElem?.mp hphase
    have hlt : id < w.workers.length := (List.getElem?_eq_some_iff.mp hid).1
    obtain ⟨exit, hexit⟩ := hall id (h.length_eq ▸ hlt)
    rw [hid] at hexit
    cases hexit
    simp [workerExit?]

/-- **The invariant gives the law.** -/
theorem staffed : w.Staffed slots where
  counted := h.counted
  live := h.live
  worker_ends := by
    intro m w' id exit hmove hbefore hafter
    by_cases hrun : w.shared.isCancelled
    · exact Or.inl hrun
    · exact Or.inr (h.worker_ends (move_cases hmove) hbefore hafter hrun)
  sequencer_ends := by
    intro m w' result hmove hbefore hafter
    by_cases hrun : w.shared.isCancelled
    · exact Or.inl hrun
    · exact Or.inr (h.sequencer_ends (move_cases hmove) hbefore hafter hrun)
  finished := h.finished

end Manned

/-- A run that is launched is manned, even if it is cancelled at once. -/
theorem manned_launch {f : Fetcher} {latest : Option ℕ} {head : Except Failure ℕ}
    (hlaunch : (f.launch latest head).engine = .running w) :
    w.Manned f.config.params.maxSlots := by
  have hslots := f.config.maxSlots_pos
  cases hlaunch
  refine ⟨rfl, ?_, ?_, ?_, fun _ phase hphase => ?_, fun _ => trivial⟩
  · show (List.replicate (max f.config.params.maxSlots 1) WorkerPhase.ready).length = _
    rw [List.length_replicate]
    omega
  · exact (List.countP_replicate.trans (if_pos rfl)).symm
  · cases head <;> exact Shutdown.sound_start _
  · rw [List.eq_of_mem_replicate hphase]
    rfl

/-- **A run that goes on is never degraded.**  However a run came to be as it is since
it was launched, whatever the node and the store answered, all its tasks are active
unless it was cancelled, and none ends in any other way than by ending the run. -/
theorem staffed_of_launch {f : Fetcher} {latest : Option ℕ} {head : Except Failure ℕ}
    {moves : List Move} {w₀ : World} (hlaunch : (f.launch latest head).engine = .running w₀)
    (hrun : w₀.after moves = some w) : w.Staffed f.config.params.maxSlots :=
  (after_induction hrun (manned_launch hlaunch) fun _ _ _ _ hv hmove => hv.move hmove).staffed

/-- Two workers: the first one gets no block and pauses, the other one finds nothing to
fetch, and both are active.  Then a call of the first one breaks off. -/
theorem staffed_of_launch_panicked :
    let params : Config.Params :=
      ⟨"http://node", "db", 2, 2, 1, 1, 1, 1, 1, ⟨2, 1, 1⟩, ⟨1, 1, 1⟩⟩
    let f : Fetcher := .make ⟨params, by decide +kernel⟩ (.fresh 0) .empty (.start 1 Nat.one_pos)
    let moves : List Move := [.worker 0 .turn, .worker 1 .turn, .sequencer .turn,
      .worker 0 (.block (.error (.ofText "no answer"))), .sequencer .turn, .worker 0 .elapsed]
    ∃ w₀ w w', (f.launch none (.ok 2)).engine = .running w₀ ∧
      w₀.after moves = some w ∧ ¬ w.shared.isCancelled ∧ w.Staffed 2 ∧
      w₀.after (moves ++ [.worker 0 (.panic "lost")]) = some w' ∧ w'.shared.isCancelled ∧
      w'.activeWorkers = 1 ∧ w'.Staffed 2 := by
  intro params f moves
  let w₀ : World := .launch (Fetcher.runSettings f.config)
    (Refresher.heard (f.sharedAtStart none) (.ok 2)) (Height.resume none) 2
  have hlive : (w₀.after moves).map (fun w => w.shared.isCancelled) = some false := by
    decide +kernel
  have hended : (w₀.after (moves ++ [.worker 0 (.panic "lost")])).map
      (fun w => (w.shared.isCancelled, w.activeWorkers)) = some (true, 1) := by
    decide +kernel
  obtain ⟨w, hw, hrun⟩ := Option.map_eq_some_iff.mp hlive
  obtain ⟨w', hw', hcounts⟩ := Option.map_eq_some_iff.mp hended
  obtain ⟨hcancel, hactive⟩ := Prod.mk.inj hcounts
  have hlaunch : (f.launch none (.ok 2)).engine = .running w₀ := rfl
  exact ⟨w₀, w, w', hlaunch, hw, by simp [hrun], staffed_of_launch hlaunch hw, hw', hcancel,
    hactive, staffed_of_launch hlaunch hw'⟩

end World
end BlockIngest
