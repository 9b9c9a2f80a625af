import BlockIngest.Config
import BlockIngest.Pipeline.World

/-!
# Starting and stopping

A fetcher runs the pipeline from the latest stored height on, and again after it was stopped.  A
start reads the store, asks for the head of the chain, and launches a run under the fetcher's root
token; a stop cancels the run, waits until all its tasks have ended, and reports the first fatal
failure.

## Main definitions

* `Token` — what is cancelled from outside.
* `Fetcher`, `Fetcher.make` — a configuration with what outlives its runs.
* `Fetcher.prepare`, `Fetcher.launch` — the two halves of a start; between them the head is asked
  for.
* `Fetcher.requestStop`, `Fetcher.finishStop` — the two halves of a stop; between them the tasks
  end.
-/

namespace BlockIngest

/-- What is cancelled from outside.  Tokens are numbered in the order in which they are made. -/
structure Token where
  /-- Its number. -/
  id : Nat
  /-- Whether it is cancelled. -/
  cancelled : Bool
  deriving DecidableEq, Repr

namespace Token

/-- A token that is not cancelled. -/
def fresh (id : Nat) : Token := ⟨id, false⟩

/-- The token, cancelled. -/
def cancel (t : Token) : Token := { t with cancelled := true }

end Token

/-- Whether a fetcher is running, and what it holds. -/
inductive Engine where
  /-- It is not running; the planner of its latest run is kept for those who look at it. -/
  | idle (standing : Standing) (planner : Option Planner)
  /-- It is running. -/
  | running (world : World)

namespace Engine

/-- What outlives the runs. -/
def standing : Engine → Standing
  | .idle standing _ => standing
  | .running w => w.shared.toStanding

/-- The planner of the run, or of the latest one. -/
def planner? : Engine → Option Planner
  | .idle _ planner => planner
  | .running w => some w.shared.planner

/-- The run, if there is one. -/
def world? : Engine → Option World
  | .idle _ _ => none
  | .running w => some w

/-- Changes what outlives the runs. -/
def mapStanding (e : Engine) (f : Standing → Standing) : Engine :=
  match e with
  | .idle standing planner => .idle (f standing) planner
  | .running w =>
      .running { w with shared := { w.shared with toStanding := f w.shared.toStanding } }

end Engine

/-- A configuration with what outlives its runs. -/
structure Fetcher where
  /-- The configuration. -/
  config : Config
  /-- The token under which runs are launched, as it was before the present run. -/
  baseToken : Token
  /-- Whether it is running. -/
  engine : Engine

namespace Fetcher

/-- A fetcher that has not been started. -/
def make (config : Config) (token : Token) (store : Store) (publisher : Publisher) : Fetcher :=
  ⟨config, token, .idle ⟨store, publisher, .ofHeight? none, {}⟩ none⟩

/-- Whether it is running. -/
def isRunning (f : Fetcher) : Bool := f.engine.world?.isSome

/-- The root token as it is now: a run that fails cancels it. -/
def token (f : Fetcher) : Token :=
  match f.engine with
  | .idle _ _ => f.baseToken
  | .running w => { f.baseToken with cancelled := w.shared.shutdown.root }

/-- The last height that was committed, or that the store held at the latest start. -/
def lastCommitted (f : Fetcher) : Option Nat := f.engine.standing.progress.lastCommitted

/-- The counter of workers that have not ended; without a run there are none. -/
def activeWorkers (f : Fetcher) : Nat :=
  match f.engine with
  | .idle _ _ => 0
  | .running w => w.activeWorkers

/-- Cancels the root token. -/
def cancelRoot (f : Fetcher) : Fetcher :=
  match f.engine with
  | .idle _ _ => { f with baseToken := f.baseToken.cancel }
  | .running w => { f with engine := .running w.cancelRoot }

/-- Replaces the root token; that is done between runs. -/
def replaceToken (f : Fetcher) (token : Token) : Fetcher := { f with baseToken := token }

/-! ### Start -/

/-- How the tasks of a run go about their work. -/
def runSettings (c : Config) : RunSettings where
  worker := ⟨c.fetchRetry, c.params.idleBackoff⟩
  storage := c.storageRetry
  supervised := true

/-- The first half of a start: the latest stored height becomes the last committed one.  Nothing
changes if the fetcher is running or the store cannot be read. -/
def prepare (f : Fetcher) (latest : Except Failure (Option Nat)) :
    Except Failure (Option Nat × Fetcher) :=
  if f.isRunning then .error (.ofText "fetcher already running")
  else
    match latest with
    | .error failure => .error (failure.context "failed to read latest committed height")
    | .ok latest =>
        .ok (latest,
          { f with engine := f.engine.mapStanding fun s =>
            { s with progress := .ofHeight? latest } })

/-- What the tasks of a run share at its start. -/
def sharedAtStart (f : Fetcher) (latest : Option Nat) : Shared :=
  let resume := Height.resume latest
  { f.engine.standing with
    planner := .start (Height.prev resume) f.config.params.maxChunkSize f.config.maxChunkSize_pos
    buffer := .start resume f.config.params.maxBufferedChunks f.config.maxBufferedChunks_pos
    shutdown := .start f.baseToken.cancelled }

/-- The second half of a start: a run above the latest stored height.  It begins even if the head is
not known; the workers then idle until it is. -/
def launch (f : Fetcher) (latest : Option Nat) (head : Except Failure Nat) : Fetcher :=
  let shared := Refresher.heard (f.sharedAtStart latest) head
  let resume := Height.resume latest
  { f with
    engine := .running (.launch (runSettings f.config) shared resume f.config.params.maxSlots) }

/-! ### Stop -/

/-- The first half of a stop: the run is cancelled. -/
def requestStop (f : Fetcher) : Fetcher :=
  match f.engine with
  | .idle _ _ => f
  | .running w => { f with engine := .running w.cancelRun }

/-- The failure that a stop reports: that of the sequencer, or else the captured one. -/
def stopFailure? (w : World) : Option Failure :=
  let captured := w.shared.shutdown.error?
  match w.sequencerResult? with
  | some (.error failure) => some failure
  | _ => captured

/-- The second half of a stop, once all tasks have ended. -/
def finishStop (f : Fetcher) : Except Failure Unit × Fetcher :=
  match f.engine with
  | .idle _ _ => (.ok (), f)
  | .running w =>
      let outcome := match stopFailure? w with
        | some failure => .error (failure.context "ingestion pipeline aborted")
        | none => .ok ()
      (outcome, { f with
        baseToken := f.token, engine := .idle w.shared.toStanding (some w.shared.planner) })

end Fetcher

end BlockIngest
