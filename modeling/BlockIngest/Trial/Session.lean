import BlockIngest.Pipeline.Runner
import BlockIngest.Trial.Setup

/-!
# Trials of many runs

A fetcher or a runner on the bench: it is started and stopped, its token is cancelled, and time
passes, while it runs and while it does not.

## Main definitions

* `Trial.during`, `Trial.changed` — a run while something happens on the bench.
* `Trial.FetcherSession` — a fetcher on the bench, with `start`, `stop`, `cancel` and `run`.
* `Trial.RunnerSession` — a runner on the bench, with the same and `runUntil`.
-/

namespace BlockIngest

namespace Trial

/-! ### Runs on the bench -/

/-- What happens to a run on the bench; without a run, what happens to the bench. -/
def during (e : Engine) (b : Bench) (f : Machine → Machine) (idle : Bench → Bench) :
    Engine × Bench :=
  match e with
  | .running w =>
      let m := f { b with world := w }
      (.running m.world, m.toBench)
  | .idle _ _ => (e, idle b)

/-- A run was changed from outside; all tasks go on until each waits. -/
def changed (before after : Engine) (b : Bench) : Engine × Bench :=
  match before, after with
  | .running w, .running w' =>
      let m := (Machine.rouseAfter { b with world := w } { b with world := w' }).settle
      (.running m.world, m.toBench)
  | _, _ => (after, b)

/-- Time passes while nothing runs. -/
def Bench.wait (length : Nat) (b : Bench) : Bench := { b with now := b.now + length }

/-- Asks for the head before a run; the time until the answer passes.  An answer that never comes
counts as a failure at once. -/
def Bench.askHead (b : Bench) : Except Failure Nat × Bench :=
  let (answer, chain) := b.chain.askHead
  let b := { b with chain := chain }
  match answer with
  | .comes later head => (head, b.wait (Duration.ceilMillis later))
  | .breaks text => (.error (.ofText text), b)
  | .never => (.error (.ofText "no answer"), b)

/-- The latest height of a store, unless the script says that it cannot be read. -/
def Bench.readLatest (b : Bench) (store : Store) : Except Failure (Option Nat) × Bench :=
  let (latest, disk) := b.disk.readLatest store.latestHeight
  (latest, { b with disk := disk })

/-- The run that a fetcher has just launched begins. -/
def begun (f : Fetcher) (b : Bench) : Fetcher × Bench :=
  match f.engine with
  | .running w =>
      let p := f.config.params
      let m := (Machine.withRun b w p.headRefreshInterval p.metricsInterval).settle
      ({ f with engine := .running m.world }, m.toBench)
  | .idle _ _ => (f, b)

/-! ### Fetchers -/

/-- A fetcher on the bench. -/
structure FetcherSession where
  /-- The fetcher. -/
  fetcher : Fetcher
  /-- The bench. -/
  bench : Bench

namespace FetcherSession

/-- Starts the fetcher. -/
def start (s : FetcherSession) : Except Failure Unit × FetcherSession :=
  let (latest, bench) :=
    if s.fetcher.isRunning then (.ok none, s.bench)
    else s.bench.readLatest s.fetcher.engine.standing.store
  match s.fetcher.prepare latest with
  | .error failure => (.error failure, { s with bench := bench })
  | .ok (latest, fetcher) =>
      let (head, bench) := bench.askHead
      let (fetcher, bench) := begun (fetcher.launch latest head) bench
      (.ok (), ⟨fetcher, bench⟩)

/-- The fetcher was changed from outside. -/
def changeTo (s : FetcherSession) (fetcher : Fetcher) : FetcherSession :=
  let (engine, bench) := changed s.fetcher.engine fetcher.engine s.bench
  ⟨{ fetcher with engine := engine }, bench⟩

/-- Stops the fetcher. -/
def stop (s : FetcherSession) : Except Failure Unit × FetcherSession :=
  let s := s.changeTo s.fetcher.requestStop
  let (outcome, fetcher) := s.fetcher.finishStop
  (outcome, { s with fetcher := fetcher })

/-- The root token is cancelled. -/
def cancel (s : FetcherSession) : FetcherSession := s.changeTo s.fetcher.cancelRoot

/-- Time passes. -/
def run (s : FetcherSession) (length : Nat) : FetcherSession :=
  let (engine, bench) := during s.fetcher.engine s.bench (fun m => m.run length) (Bench.wait length)
  ⟨{ s.fetcher with engine := engine }, bench⟩

end FetcherSession

/-! ### Runners -/

/-- A runner on the bench. -/
structure RunnerSession where
  /-- The runner. -/
  runner : Runner
  /-- The bench. -/
  bench : Bench

namespace RunnerSession

/-- Starts the runner, unless it is started already. -/
def start (s : RunnerSession) : Except Failure Unit × RunnerSession :=
  let (latest, bench) :=
    if s.runner.isStarted then (.ok none, s.bench)
    else s.bench.readLatest s.runner.fetcher.engine.standing.store
  match s.runner.prepare latest with
  | .error failure => (.error failure, { s with bench := bench })
  | .ok (none, _) => (.ok (), s)
  | .ok (some latest, runner) =>
      let (head, bench) := bench.askHead
      let runner := runner.launch latest head
      let (fetcher, bench) := begun runner.fetcher bench
      (.ok (), ⟨{ runner with fetcher := fetcher }, bench⟩)

/-- The runner was changed from outside. -/
def changeTo (s : RunnerSession) (runner : Runner) : RunnerSession :=
  let (engine, bench) := changed s.runner.fetcher.engine runner.fetcher.engine s.bench
  ⟨{ runner with fetcher := { runner.fetcher with engine := engine } }, bench⟩

/-- Stops the runner. -/
def stop (s : RunnerSession) : Except Failure Unit × RunnerSession :=
  let s := s.changeTo s.runner.requestStop
  let (outcome, runner) := s.runner.finishStop
  (outcome, { s with runner := runner })

/-- The current token is cancelled. -/
def cancel (s : RunnerSession) : RunnerSession := s.changeTo s.runner.cancel

/-- Something happens on the bench. -/
def onBench (s : RunnerSession) (f : Machine → Machine) (idle : Bench → Bench) : RunnerSession :=
  let (engine, bench) := during s.runner.fetcher.engine s.bench f idle
  ⟨{ s.runner with fetcher := { s.runner.fetcher with engine := engine } }, bench⟩

/-- Time passes. -/
def run (s : RunnerSession) (length : Nat) : RunnerSession :=
  s.onBench (fun m => m.run length) (Bench.wait length)

/-- Runs until the token is cancelled, by a run that fails or from outside after some time, and
stops. -/
def runUntil (s : RunnerSession) (length : Nat) : Except Failure Unit × RunnerSession :=
  let limit := s.bench.now + length
  match s.start with
  | (.error failure, s) => (.error failure, s)
  | (.ok _, s) =>
      let rootCancelled := fun m : Machine => m.world.shared.shutdown.root
      let s := s.onBench (Machine.pass rootCancelled limit Machine.patience) id
      stop s.cancel

end RunnerSession

end Trial

end BlockIngest
