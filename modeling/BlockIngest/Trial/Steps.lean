import BlockIngest.Trial.Bench

/-!
# The steps of a task

What each task of a run on the bench does when its turn comes, if it can do anything: which signal
it gets, what its step makes of that, and what it sets going with the phase that it comes to, such
as an alarm or a question to the chain.

Where a task could either obey a cancellation or go on, it obeys.

## Main definitions

* `Trial.Machine.workerSignal?`, `Trial.Machine.sequencerSignal?` — the signal that a task goes on
  with.
* `Trial.Machine.workerEnters`, `Trial.Machine.sequencerEnters` — what it sets going.
* `Trial.Machine.advance` — the next step of a task.
-/

namespace BlockIngest

namespace Trial

namespace Machine

/-! ### Workers -/

/-- Sends an answer to a worker. -/
def send {α : Type} (m : Machine) (id : Nat) (answer : Answer α) (signal : α → WorkerSignal) :
    Machine :=
  match answer with
  | .comes later a =>
      let time := Duration.ceilMillis (m.now + later)
      let m := { m with letters := m.letters ++ [(id, time, signal a)] }
      if later = 0 then m else m.alarmAt (.worker id) time
  | .breaks text => { m with letters := m.letters ++ [(id, m.now, .panic text)] }
  | .never => m

/-- A worker asks for a block. -/
def askBlock (m : Machine) (id height : Nat) : Machine :=
  let (answer, chain) := m.chain.askBlock height
  send { m with chain := chain, calls := m.calls ++ [(.block, height)] } id answer .block

/-- A worker asks for the outcomes of the transactions of a height. -/
def askResults (m : Machine) (id height : Nat) : Machine :=
  let (answer, chain) := m.chain.askResults height
  send { m with chain := chain, calls := m.calls ++ [(.results, height)] } id answer .results

/-- What a worker sets going when it comes to a phase. -/
def workerEnters (m : Machine) (id : Nat) : WorkerPhase → Machine
  | .idle => m.rest (.worker id) m.world.settings.worker.idleBackoff
  | .awaitingBlock job => m.askBlock id job.height
  | .awaitingResults job _ => m.askResults id job.height
  | .pausing _ length => m.rest (.worker id) length
  | _ => m

/-- What is set going for a worker ends with the phase. -/
def workerLeaves (m : Machine) (id : Nat) : Machine :=
  { m.withoutAlarms (.worker id) with letters := m.letters.filter fun l => l.1 != id }

/-- The answer that has arrived for a worker. -/
def letter? (m : Machine) (id : Nat) : Option WorkerSignal :=
  (m.letters.find? fun l => l.1 == id && decide (l.2.1 ≤ m.now)).map fun l => l.2.2

/-- The signal for a worker, if it can go on. -/
def workerSignal? (m : Machine) (id : Nat) : WorkerPhase → Option WorkerSignal
  | .ready => some .turn
  | .exited _ => none
  | phase =>
      if m.isCancelled then some .cancel
      else
        match phase with
        | .submitting _ _ => some .turn
        | .awaitingBlock _ => m.letter? id
        | .awaitingResults _ _ => m.letter? id
        | _ => if m.isResting (.worker id) then none else some .elapsed

/-- The next step of a worker. -/
def advanceWorker (m : Machine) (id : Nat) : Option Machine := do
  let phase ← m.world.workers[id]?
  let signal ← m.workerSignal? id phase
  let world ← m.world.stepWorker id signal
  let phase ← world.workers[id]?
  return workerEnters { m.workerLeaves id with world := world } id phase

/-! ### The sequencer -/

/-- A write is tried; the script may cancel the run during it. -/
def write (m : Machine) (kind : DiskAccess) (height : Nat) (index : Option Nat) :
    Except Failure Unit × Machine :=
  let (outcome, disk) := m.disk.write m.now kind height index
  let m := { m with disk := disk }
  (outcome, if disk.cancelsNow then { m with world := m.world.cancelRun } else m)

/-- The signal for the sequencer, if it can go on, and what was tried for it. -/
def sequencerSignal? (m : Machine) : Option (SequencerSignal × Machine) :=
  match m.world.sequencer.phase with
  | .popping _ => some (if m.isCancelled then .cancel else .turn, m)
  | .savingBlock job =>
      let (outcome, m) := m.write .block job.current.height none
      some (.written outcome, m)
  | .savingTx _ tx _ =>
      let (outcome, m) := m.write .tx tx.height (some tx.index)
      some (.written outcome, m)
  | .pausing _ _ =>
      if m.isCancelled then some (.cancel, m)
      else if m.isResting .sequencer then none
      else some (.elapsed, m)
  | .draining => some (.turn, m)
  | .exited _ => none

/-- What the sequencer sets going when it comes to a phase. -/
def sequencerEnters (m : Machine) : SequencerPhase → Machine
  | .pausing _ length => m.rest .sequencer length
  | _ => m

/-- The next step of the sequencer. -/
def advanceSequencer (m : Machine) : Option Machine := do
  let (signal, m) ← m.sequencerSignal?
  let world ← m.world.stepSequencer signal
  let m := { m.withoutAlarms .sequencer with world := world }
  return m.sequencerEnters world.sequencer.phase

/-! ### The refresher and the reporter -/

/-- Waits for the next time of the refresher, unless it has come. -/
def awaitHeadTick (m : Machine) : Machine :=
  if Duration.ceilMillis m.headTicker.due ≤ m.now then m else m.alarmAt .refresher m.headTicker.due

/-- The refresher asks. -/
def askHead (m : Machine) : Machine :=
  let (answer, chain) := m.chain.askHead
  let m := { m with chain := chain, headTicker := m.headTicker.tick m.now }
  match answer with
  | .comes later head =>
      let time := Duration.ceilMillis (m.now + later)
      let m := { m with headLetter := some (time, head) }
      if later = 0 then m else m.alarmAt .refresher time
  | _ => m

/-- The next step of the refresher. -/
def advanceRefresher (m : Machine) : Option Machine :=
  if m.isCancelled then do
    return { m with world := (← m.world.stepRefresher .cancel), headLetter := none }
  else
    match m.world.refresher with
    | .waiting =>
        if m.isResting .refresher ∨ m.now < Duration.ceilMillis m.headTicker.due then none
        else do return askHead { m with world := (← m.world.stepRefresher .tick) }
    | .asking =>
        match m.headLetter with
        | some (time, head) =>
            if m.now < time then none
            else do
              let world ← m.world.stepRefresher (.head head)
              return awaitHeadTick { m with world := world, headLetter := none }
        | none => none
    | .exited => none

/-- The next step of the reporter. -/
def advanceReporter (m : Machine) : Option Machine :=
  match m.reporter with
  | none => none
  | some task =>
      if m.isCancelled then some { m with reporter := none, lines := m.lines ++ [.stopped] }
      else if m.now < Duration.ceilMillis task.ticker.due then none
      else
        let (report, reporter) := task.reporter.report m.world.shared m.now
        let ticker := task.ticker.tick m.now
        some (alarmAt { m with
            reporter := some ⟨ticker, reporter⟩
            lines := m.lines ++ [.metrics report] }
          .reporter ticker.due)

/-! ### Visitors -/

/-- The buffer in another state. -/
def withBuffer (m : Machine) (b : Buffer) : Machine := m.mapShared fun s => { s with buffer := b }

/-- A visitor in another phase. -/
def withVisitor (m : Machine) (v : Visitor) : Machine :=
  { m with visitors := m.visitors.map fun u => if u.id = v.id then v else u }

/-- A visitor's call has ended. -/
def visitorDone (m : Machine) (id : Nat) (chunk : Option CompletedChunk) : Machine :=
  { m with
    visitors := m.visitors.filter (fun v => v.id != id)
    finished := m.finished ++ [(id, chunk)] }

/-- The next step of a visitor. -/
def advanceVisitor (m : Machine) (id : Nat) : Option Machine :=
  match m.visitors.find? fun v => v.id == id with
  | none => none
  | some v =>
      match v.phase with
      | .pushing chunk call =>
          match m.world.shared.buffer.stepPush (.visitor id) chunk call with
          | some (.goOn call, b) => some ((m.withBuffer b).withVisitor ⟨id, .pushing chunk call⟩)
          | some (.finished _, b) => some ((m.withBuffer b).visitorDone id none)
          | none => none
      | .popping call =>
          match m.world.shared.buffer.stepPop (.visitor id) call with
          | some (.goOn call, b) => some ((m.withBuffer b).withVisitor ⟨id, .popping call⟩)
          | some (.finished chunk, b) => some ((m.withBuffer b).visitorDone id (some chunk))
          | none => none

/-! ### All tasks -/

/-- The next step of a task, if it can go on. -/
def advance (m : Machine) : TaskId → Option Machine
  | .worker id => m.advanceWorker id
  | .sequencer => m.advanceSequencer
  | .refresher => m.advanceRefresher
  | .reporter => m.advanceReporter
  | .visitor id => m.advanceVisitor id

end Machine

end Trial

end BlockIngest
