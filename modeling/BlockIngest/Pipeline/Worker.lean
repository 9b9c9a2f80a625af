import BlockIngest.Pipeline.Shared
import BlockIngest.Retry

/-!
# Workers

A worker claims a range, asks the node for the block and then for the outcomes of each of its
heights, and hands the completed chunk to the buffer.  A range that fails is tried again from its
lowest height, as often as the policy allows, and is then released; a height above the node's head
releases it at once and tells the planner how far the node is.  Without a range the worker idles.

An attempt begins with a list that has room for all heights of the range.  There is no such list for
a range of too many heights: a worker that claims one breaks off before it asks for anything.

Between two steps any other task may take its turn.  A worker that waits is moved by a signal: an
answer, the end of a pause, or the cancellation of the run, which it obeys wherever it waits.

## Main definitions

* `FetchJob`, `FetchJob.mostHeights` — a range being fetched, and how many heights it can have.
* `WorkerPhase`, `WorkerExit` — what a worker is doing, and how it ends.
* `WorkerSignal` — what moves a worker.
* `Worker.step` — the next phase.
-/

namespace BlockIngest

/-- A range being fetched. -/
structure FetchJob where
  /-- The range. -/
  range : ChunkRange
  /-- The attempt under way. -/
  retry : Retry
  /-- What this attempt has fetched so far, from the lowest height on. -/
  fetched : List FetchedBlock

namespace FetchJob

/-- The most heights that a list can have room for: a fetched height takes up 160 bytes of it, and
no list takes up more than `2 ^ 63 - 1` bytes. -/
def mostHeights : Nat := 0x7fffffffffffffff / 160

/-- The first attempt at a range. -/
def start (policy : Retry.Policy) (range : ChunkRange) : FetchJob := ⟨range, .start policy, []⟩

/-- The height that is fetched next. -/
def height (j : FetchJob) : Nat := j.range.first + j.fetched.length

/-- A further height was fetched. -/
def add (j : FetchJob) (f : FetchedBlock) : FetchJob := { j with fetched := j.fetched ++ [f] }

/-- Whether every height was fetched. -/
def isDone (j : FetchJob) : Bool := decide (j.range.size ≤ j.fetched.length)

/-- The attempt after a failed one; it begins at the lowest height again. -/
def again (j : FetchJob) : FetchJob := { j with retry := j.retry.again, fetched := [] }

end FetchJob

/-- How a worker ends. -/
inductive WorkerExit where
  /-- The run was cancelled. -/
  | stopped
  /-- What was fetched makes no chunk. -/
  | failed (failure : Failure)
  /-- It broke off, with these words. -/
  | panicked (text : String)
  deriving DecidableEq, Repr

/-- What a worker is doing. -/
inductive WorkerPhase where
  /-- It is about to look for work. -/
  | ready
  /-- It found none and waits. -/
  | idle
  /-- It waits for a block. -/
  | awaitingBlock (job : FetchJob)
  /-- It has a block and waits for the outcomes of its transactions. -/
  | awaitingResults (job : FetchJob) (block : Block)
  /-- An attempt has failed and the next one follows after a pause. -/
  | pausing (job : FetchJob) (length : Nat)
  /-- It hands a chunk to the buffer. -/
  | submitting (chunk : CompletedChunk) (call : CallPhase)
  /-- It has ended. -/
  | exited (exit : WorkerExit)

/-- What moves a worker. -/
inductive WorkerSignal where
  /-- It goes on by itself. -/
  | turn
  /-- Its pause is over. -/
  | elapsed
  /-- The answer about a block. -/
  | block (answer : Except Failure Block)
  /-- The answer about the outcomes. -/
  | results (answer : Except Failure BlockResults)
  /-- The call to the node breaks off. -/
  | panic (text : String)
  /-- It notices that the run is cancelled. -/
  | cancel

namespace Worker

/-- How workers go about their work. -/
structure Settings where
  /-- How fetching is retried. -/
  retry : Retry.Policy
  /-- How long a worker idles. -/
  idleBackoff : Nat
  deriving DecidableEq, Repr

/-- Counts a failed attempt. -/
def countFailure (failure : Failure) (t : Telemetry) : Telemetry :=
  match failure.rpcError? with
  | some (.timeout _) => t.fetchTimeout
  | _ => t.fetchError

/-- The height that a failure says is above the node's head. -/
def missing? (failure : Failure) : Option Nat :=
  match failure.rpcError? with
  | some (.heightNotFound h) => some h
  | _ => none

/-- What follows from a failed attempt.  A height above the node's head is no error: the planner
learns that the node is one below it. -/
def attemptFailed (s : Shared) (job : FetchJob) (failure : Failure) : WorkerPhase × Shared :=
  match missing? failure with
  | some h => (.ready, (s.observe (Height.prev h)).giveUp job.range)
  | none =>
      let s := { s with telemetry := countFailure failure s.telemetry }
      match job.retry.judge false with
      | .pause length => (.pausing job length, s)
      | _ => (.ready, s.giveUp job.range)

/-- Takes up a range that was claimed. -/
def takeUp (settings : Settings) (r : ChunkRange) : WorkerPhase :=
  if r.size ≤ FetchJob.mostHeights then .awaitingBlock (.start settings.retry r)
  else .exited (.panicked "capacity overflow")

/-- Looks for work. -/
def seek (settings : Settings) (s : Shared) : WorkerPhase × Shared :=
  if s.isCancelled then (.exited .stopped, s)
  else
    match s.claim with
    | (some r, s) => (takeUp settings r, s)
    | (none, s) => (.idle, s)

/-- The run is cancelled while a range is claimed. -/
def abandon (s : Shared) (r : ChunkRange) : WorkerPhase × Shared := (.exited .stopped, s.giveBack r)

/-- A block arrived: it must be the one that was asked for. -/
def blockArrived (s : Shared) (job : FetchJob) (b : Block) : WorkerPhase × Shared :=
  if b.height ≠ job.height then
    attemptFailed s job (.ofRpc (.inconsistent job.height s!"node returned block {b.height}"))
  else (.awaitingResults job b, s)

/-- All heights were fetched: the chunk is handed on. -/
def fetched (job : FetchJob) : WorkerPhase :=
  match CompletedChunk.make job.range job.fetched with
  | .ok chunk => .submitting chunk .fresh
  | .error text => .exited (.failed (.ofText text))

/-- The outcomes for a block arrived: the height is fetched if they fit it. -/
def resultsArrived (s : Shared) (job : FetchJob) (b : Block) (r : BlockResults) :
    WorkerPhase × Shared :=
  match FetchedBlock.assemble b r with
  | .error e => attemptFailed s job (.ofRpc e)
  | .ok f =>
      let job := job.add f
      if job.isDone then (fetched job, s) else (.awaitingBlock job, s)

/-- The next step of the call that hands a chunk to the buffer. -/
def submit (id : Nat) (s : Shared) (chunk : CompletedChunk) (call : CallPhase) :
    Option (WorkerPhase × Shared) :=
  match s.buffer.stepPush (.worker id) chunk call with
  | some (.goOn call, buffer) => some (.submitting chunk call, { s with buffer := buffer })
  | some (.finished _, buffer) => some (.ready, { s with buffer := buffer }.settle chunk.range)
  | none => none

/-- The run is cancelled, wherever the worker waits. -/
def cancel (id : Nat) (s : Shared) : WorkerPhase → Option (WorkerPhase × Shared)
  | .idle => some (.exited .stopped, s)
  | .awaitingBlock job => some (abandon s job.range)
  | .awaitingResults job _ => some (abandon s job.range)
  | .pausing job _ => some (abandon s job.range)
  | .submitting chunk _ =>
      some (abandon { s with buffer := s.buffer.forget (.worker id) } chunk.range)
  | .ready => none
  | .exited _ => none

/-- What a signal makes of a worker; nothing if it is not meant for what the worker is doing. -/
def step (settings : Settings) (id : Nat) (s : Shared) :
    WorkerPhase → WorkerSignal → Option (WorkerPhase × Shared)
  | .ready, .turn => some (seek settings s)
  | .idle, .elapsed => some (.ready, s)
  | .awaitingBlock job, .block (.ok b) => some (blockArrived s job b)
  | .awaitingBlock job, .block (.error e) => some (attemptFailed s job e)
  | .awaitingBlock _, .panic text => some (.exited (.panicked text), s)
  | .awaitingResults job b, .results (.ok r) => some (resultsArrived s job b r)
  | .awaitingResults job _, .results (.error e) => some (attemptFailed s job e)
  | .awaitingResults _ _, .panic text => some (.exited (.panicked text), s)
  | .pausing job _, .elapsed =>
      some (if s.isCancelled then abandon s job.range else (.awaitingBlock job.again, s))
  | .submitting chunk call, .turn => submit id s chunk call
  | phase, .cancel => if s.isCancelled then cancel id s phase else none
  | _, _ => none

end Worker

end BlockIngest
