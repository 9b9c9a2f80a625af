import BlockIngest.Pipeline.Report
import BlockIngest.Pipeline.Ticker
import BlockIngest.Pipeline.World
import BlockIngest.Trial.Chain
import BlockIngest.Trial.Disk

/-!
# The bench

A trial puts a run on a bench: a clock, the queues in which its tasks wait for their turns, the
alarms that they have set, the answers that are on their way to them, the scripts of the chain and
of the store, and the logs of all that was asked, written and reported.

## Main definitions

* `Trial.Visitor` — a call from outside that puts a chunk in or takes one out.
* `Trial.Bench` — clock, queues, alarms, scripts and logs.
* `Trial.Machine` — a run on the bench.
* `Trial.Machine.alarmAt`, `Trial.Machine.rest`, `Trial.Machine.isResting` — tasks that wait for
  the clock.
* `Trial.Machine.rouse`, `Trial.Machine.rouseAfter` — tasks that can go on, and which a change
  makes so.
-/

namespace BlockIngest

namespace Trial

/-! ### State -/

/-- What a visitor is doing. -/
inductive VisitorPhase where
  /-- It puts a chunk in. -/
  | pushing (chunk : CompletedChunk) (call : CallPhase)
  /-- It takes the due chunk out. -/
  | popping (call : CallPhase)

/-- A call from outside. -/
structure Visitor where
  /-- Its number. -/
  id : Nat
  /-- What it is doing. -/
  phase : VisitorPhase

/-- A line that the reporter has written. -/
inductive ReportLine where
  /-- The state of the run. -/
  | metrics (report : Report)
  /-- The reporter has ended. -/
  | stopped

/-- A reporter that has not ended. -/
structure ReporterTask where
  /-- When it writes the next line. -/
  ticker : Ticker
  /-- What the next line is compared with. -/
  reporter : Reporter

/-- Clock, queues, alarms and scripts. -/
structure Bench where
  /-- The chain. -/
  chain : Chain
  /-- The faults of the store. -/
  disk : Disk
  /-- The time. -/
  now : Nat := 0
  /-- All tasks in the order in which they began. -/
  tasks : List TaskId := []
  /-- The task whose turn it is. -/
  current : Option TaskId := none
  /-- The tasks that can go on, in the order of their turns. -/
  ready : List TaskId := []
  /-- The tasks that let all others go first. -/
  yielded : List TaskId := []
  /-- The times for which tasks have set alarms. -/
  alarms : List (Nat × TaskId) := []
  /-- Answers that are on their way: to which worker, when they arrive, and what they are. -/
  letters : List (Nat × Nat × WorkerSignal) := []
  /-- The answer about the head that is on its way. -/
  headLetter : Option (Nat × Except Failure Nat) := none
  /-- When the refresher asks next. -/
  headTicker : Ticker := .start Duration.second .skip 0
  /-- The reporter, until it ends. -/
  reporter : Option ReporterTask := none
  /-- What the reporter has written. -/
  lines : List ReportLine := []
  /-- The calls about heights that were made. -/
  calls : List (Call × Nat) := []
  /-- The visitors whose calls have not ended. -/
  visitors : List Visitor := []
  /-- The visitors whose calls have ended, and the chunks they took out. -/
  finished : List (Nat × Option CompletedChunk) := []

/-- A run on the bench. -/
structure Machine extends Bench where
  /-- The run. -/
  world : World

namespace Bench

/-- Takes the log of writes, which then begins anew. -/
def takeWrites (b : Bench) : List LoggedWrite × Bench :=
  (b.disk.log, { b with disk := { b.disk with log := [] } })

/-- Takes the log of calls, which then begins anew. -/
def takeCalls (b : Bench) : List (Call × Nat) × Bench := (b.calls, { b with calls := [] })

/-- Takes the lines of the reporter, which then begin anew. -/
def takeLines (b : Bench) : List ReportLine × Bench := (b.lines, { b with lines := [] })

end Bench

namespace Machine

/-- Changes the bench. -/
def onBench {α : Type} (m : Machine) (f : Bench → α × Bench) : α × Machine :=
  let (a, b) := f m.toBench
  (a, { b with world := m.world })

/-! ### Alarms and queues -/

/-- Whether the run is cancelled. -/
def isCancelled (m : Machine) : Bool := m.world.shared.isCancelled

/-- Changes what the tasks share. -/
def mapShared (m : Machine) (f : Shared → Shared) : Machine :=
  { m with world := { m.world with shared := f m.world.shared } }

/-- Sets an alarm for a time; clocks are read in whole milliseconds. -/
def alarmAt (m : Machine) (t : TaskId) (time : Nat) : Machine :=
  { m with alarms := m.alarms ++ [(Duration.ceilMillis time, t)] }

/-- Takes the alarms of a task back. -/
def withoutAlarms (m : Machine) (t : TaskId) : Machine :=
  { m with alarms := m.alarms.filter fun a => a.2 != t }

/-- Whether a task has let others go first or waits for an alarm. -/
def isResting (m : Machine) (t : TaskId) : Bool :=
  decide (t ∈ m.yielded) || m.alarms.any fun a => a.2 == t

/-- A pause; one of no length lets all others go first. -/
def rest (m : Machine) (t : TaskId) (length : Nat) : Machine :=
  if length = 0 then { m with yielded := m.yielded ++ [t] } else m.alarmAt t (m.now + length)

/-- A task can go on. -/
def rouse (m : Machine) (t : TaskId) : Machine :=
  if m.current = some t ∨ t ∈ m.ready then m else { m with ready := m.ready ++ [t] }

/-- A task begins. -/
def spawn (m : Machine) (t : TaskId) : Machine :=
  { m with tasks := m.tasks ++ [t], ready := m.ready ++ [t] }

/-- Whether a task notices a cancellation of the run. -/
def heedsCancel : TaskId → Bool
  | .visitor _ => false
  | _ => true

/-- Rouses the tasks that a change concerns: those that an announcement of the buffer has reached,
and all that heed the cancellation, if the run was not cancelled before. -/
def rouseAfter (before m : Machine) : Machine :=
  let reached := before.world.shared.buffer.listeners.filter fun t =>
    decide (t ∉ m.world.shared.buffer.listeners)
  let heeding := if m.isCancelled && !before.isCancelled then m.tasks.filter heedsCancel else []
  (reached ++ heeding).foldl rouse m

end Machine

end Trial

end BlockIngest
