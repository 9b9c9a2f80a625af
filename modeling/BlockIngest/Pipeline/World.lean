import BlockIngest.Pipeline.Refresher
import BlockIngest.Pipeline.Sequencer
import BlockIngest.Pipeline.Worker

/-!
# A run

A run consists of a number of workers, the sequencer and the refresher, and of what they share.  A
worker or the sequencer that ends in failure, or a worker that breaks off, ends the whole run.
Every change of a run is the step of one of its tasks or a change from outside.

## Main definitions

* `RunSettings` — how the tasks go about their work.
* `World`, `World.launch` — a run and its start.
* `World.stepWorker`, `World.stepSequencer`, `World.stepRefresher` — the steps of its tasks.
* `World.isFinished` — whether all tasks have ended.
-/

namespace BlockIngest

/-- How the tasks of a run go about their work. -/
structure RunSettings where
  /-- How workers do. -/
  worker : Worker.Settings
  /-- How storing is retried. -/
  storage : Retry.Policy
  /-- Whether a task that fails ends the run. -/
  supervised : Bool
  deriving DecidableEq, Repr

/-- A run. -/
structure World where
  /-- How the tasks go about their work. -/
  settings : RunSettings
  /-- What the tasks share. -/
  shared : Shared
  /-- What each worker is doing. -/
  workers : List WorkerPhase
  /-- The counter of workers that have not ended. -/
  activeWorkers : Nat
  /-- The sequencer. -/
  sequencer : Sequencer
  /-- What the refresher is doing. -/
  refresher : RefresherPhase

namespace World

/-- The start of a run with `slots` workers; there is always at least one. -/
def launch (settings : RunSettings) (shared : Shared) (nextCommit slots : Nat) : World where
  settings := settings
  shared := shared
  workers := List.replicate (max slots 1) .ready
  activeWorkers := max slots 1
  sequencer := .start settings.storage nextCommit
  refresher := .waiting

/-! ### Supervision -/

/-- The failure with which a worker ends a run. -/
def workerFault? (id : Nat) : WorkerExit → Option (String × Failure)
  | .stopped => none
  | .failed failure => some (s!"worker {id} exited with error", failure)
  | .panicked text => some (s!"worker {id} panicked", .ofText text)

/-- A worker has ended: if it failed, the run ends. -/
def workerEnded (settings : RunSettings) (id : Nat) (exit : WorkerExit) (s : Shared) : Shared :=
  match workerFault? id exit with
  | some (context, failure) =>
      if settings.supervised then
        { s with shutdown := (s.shutdown.taskFailed context failure).2 } else s
  | none => s

/-- The sequencer has ended: if it failed, the run ends, and the failure is returned as it was
captured. -/
def sequencerEnded (settings : RunSettings) (result : Except Failure Unit) (s : Shared) :
    Except Failure Unit × Shared :=
  match result with
  | .ok _ => (result, s)
  | .error failure =>
      if settings.supervised then
        let (returned, shutdown) := s.shutdown.taskFailed "sequencer exited with error" failure
        (.error returned, { s with shutdown := shutdown })
      else (result, s)

/-! ### Steps -/

/-- The step of a worker. -/
def stepWorker (w : World) (id : Nat) (signal : WorkerSignal) : Option World :=
  match w.workers[id]? with
  | none => none
  | some phase =>
      match Worker.step w.settings.worker id w.shared phase signal with
      | none => none
      | some (.exited exit, s) =>
          some { w with
            shared := workerEnded w.settings id exit s
            workers := w.workers.set id (.exited exit)
            activeWorkers := w.activeWorkers - 1 }
      | some (phase, s) => some { w with shared := s, workers := w.workers.set id phase }

/-- The step of the sequencer. -/
def stepSequencer (w : World) (signal : SequencerSignal) : Option World :=
  match w.sequencer.step w.shared signal with
  | none => none
  | some (q, s) =>
      match q.phase with
      | .exited result =>
          let (result, s) := sequencerEnded w.settings result s
          some { w with shared := s, sequencer := q.goTo (.exited result) }
      | _ => some { w with shared := s, sequencer := q }

/-- The step of the refresher. -/
def stepRefresher (w : World) (signal : RefresherSignal) : Option World :=
  match Refresher.step w.shared w.refresher signal with
  | none => none
  | some (phase, s) => some { w with shared := s, refresher := phase }

/-! ### From outside -/

/-- The token of the run is cancelled. -/
def cancelRun (w : World) : World :=
  { w with shared := { w.shared with shutdown := w.shared.shutdown.cancelRun } }

/-- The root token is cancelled. -/
def cancelRoot (w : World) : World :=
  { w with shared := { w.shared with shutdown := w.shared.shutdown.cancelRoot } }

/-- How a worker has ended, if it has. -/
def workerExit? : WorkerPhase → Option WorkerExit
  | .exited exit => some exit
  | _ => none

/-- How the sequencer has ended, if it has. -/
def sequencerResult? (w : World) : Option (Except Failure Unit) :=
  match w.sequencer.phase with
  | .exited result => some result
  | _ => none

/-- Whether every task has ended. -/
def isFinished (w : World) : Bool :=
  w.workers.all (fun phase => (workerExit? phase).isSome) && w.sequencerResult?.isSome &&
    w.refresher == .exited

end World

end BlockIngest
