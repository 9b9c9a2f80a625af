import BlockIngest.Trial.Machine

/-!
# Setting a trial up

A trial need not have all the tasks of a run: it may be about one worker, about the sequencer and
the chunks that are put into its buffer, or about the buffer alone.  Tasks that are not part of a
trial have ended before it begins.

## Main definitions

* `Trial.Chain.silent` — a chain without blocks.
* `Trial.Machine.make` — a trial without tasks.
* `Trial.Machine.withSequencer`, `Trial.Machine.withWorkers`, `Trial.Machine.withRefresher`,
  `Trial.Machine.withReporter` — tasks that begin.
* `Trial.Machine.withRun` — a whole run that begins.
* `Trial.Machine.refresh` — a single question for the head.
* `Trial.Machine.push`, `Trial.Machine.pop`, `Trial.Machine.leave` — visitors that come and go.
* `Trial.Machine.popNow`, `Trial.Machine.tryPop` — taking the due chunk out from outside.
-/

namespace BlockIngest

namespace Trial

/-- A chain without blocks. -/
def Chain.silent : Chain := ⟨0, 0, .fixed 0, [], []⟩

/-- What the tasks of a trial share. -/
def shared (planner : Planner) (buffer : Buffer) (publisher : Publisher) : Shared where
  store := .empty
  publisher := publisher
  progress := .ofHeight? none
  telemetry := {}
  planner := planner
  buffer := buffer
  shutdown := .start false

namespace Machine

/-- A policy of a single attempt. -/
def noRetry : Retry.Policy := ⟨0, 0, some 1⟩

/-- A trial without tasks. -/
def make (shared : Shared) (chain : Chain) (disk : Disk) : Machine where
  chain := chain
  disk := disk
  world := {
    settings := ⟨⟨noRetry, 0⟩, noRetry, false⟩
    shared := shared
    workers := []
    activeWorkers := 0
    sequencer := ⟨noRetry, shared.buffer.nextCommit, .exited (.ok ())⟩
    refresher := .exited }

/-- The sequencer begins. -/
def withSequencer (m : Machine) (policy : Retry.Policy) (nextCommit : Nat) : Machine :=
  spawn { m with world := { m.world with
    settings := { m.world.settings with storage := policy }
    sequencer := .start policy nextCommit } } .sequencer

/-- Workers begin; a failed one ends the run if they are supervised. -/
def withWorkers (m : Machine) (settings : Worker.Settings) (count : Nat) (supervised : Bool) :
    Machine :=
  let m := { m with world := { m.world with
    settings := { m.world.settings with worker := settings, supervised := supervised }
    workers := List.replicate count .ready
    activeWorkers := count } }
  (List.range count).foldl (fun m id => m.spawn (.worker id)) m

/-- The refresher begins. -/
def withRefresher (m : Machine) (interval : Nat) : Machine :=
  spawn { m with
    headTicker := .start interval .skip m.now
    world := { m.world with refresher := .waiting } } .refresher

/-- The reporter begins. -/
def withReporter (m : Machine) (interval : Nat) : Machine :=
  let reporter : Reporter := ⟨m.world.shared.telemetry, m.now⟩
  spawn { m with reporter := some ⟨.start interval .delay m.now, reporter⟩ } .reporter

/-- A whole run begins on a bench, after all earlier ones have ended. -/
def withRun (b : Bench) (w : World) (headInterval reportInterval : Nat) : Machine :=
  let idle : Bench := { b with
    tasks := [], current := none, ready := [], yielded := [], alarms := [],
    letters := [], headLetter := none }
  let m : Machine := { idle with world := w }
  let m := (m.withReporter reportInterval).withRefresher headInterval
  let tasks := TaskId.sequencer :: (List.range w.workers.length).map TaskId.worker
  tasks.foldl spawn m

/-! ### From outside -/

/-- Asks for the head once and tells the planner; the time until the answer passes.  An answer that
never comes counts as a failure at once. -/
def refresh (m : Machine) : Option Nat × Machine :=
  let (answer, chain) := m.chain.askHead
  let m := { m with chain := chain }
  match answer with
  | .comes later head =>
      (head.toOption, (m.run later).change fun m => m.mapShared fun s => Refresher.heard s head)
  | _ => (none, m)

/-- A visitor begins to put a chunk in. -/
def push (m : Machine) (id : Nat) (chunk : CompletedChunk) : Machine :=
  spawn { m with visitors := m.visitors ++ [⟨id, .pushing chunk .fresh⟩] } (.visitor id)

/-- A visitor begins to take the due chunk out. -/
def pop (m : Machine) (id : Nat) : Machine :=
  spawn { m with visitors := m.visitors ++ [⟨id, .popping .fresh⟩] } (.visitor id)

/-- A visitor leaves before its call has ended. -/
def leave (m : Machine) (id : Nat) : Machine :=
  let m := m.withBuffer (m.world.shared.buffer.forget (.visitor id))
  { m with visitors := m.visitors.filter fun v => v.id != id }

/-- Takes the due chunk out, if it is there, and announces it. -/
def popNow (m : Machine) : Option CompletedChunk × Machine :=
  match m.world.shared.buffer.take with
  | (some chunk, b) => (some chunk, m.withBuffer b.announce)
  | (none, _) => (none, m)

/-- Takes the due chunk out, if it is there, without announcing it. -/
def tryPop (m : Machine) : Option CompletedChunk × Machine :=
  let (chunk, b) := m.world.shared.buffer.take
  (chunk, m.withBuffer b)

end Machine

end Trial

end BlockIngest
