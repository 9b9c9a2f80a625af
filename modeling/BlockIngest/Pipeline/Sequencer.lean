import BlockIngest.Pipeline.Shared
import BlockIngest.Retry

/-!
# The sequencer

The sequencer takes chunks out of the buffer in the order of their heights and commits one height
after the other: first the block is written, then each of its transactions, and only then are their
events published.  A write that fails starts the height again from its block, as often as the policy
allows; after the last attempt the run ends.  The cancellation of the run is obeyed before a chunk
is taken out, before an attempt and in a pause, but not between the writes of one attempt.

## Main definitions

* `CommitJob` — a height being committed.
* `SequencerPhase`, `Sequencer` — what the sequencer is doing.
* `SequencerSignal` — what moves it.
* `Sequencer.step` — the next phase.
-/

namespace BlockIngest

/-- A height being committed. -/
structure CommitJob where
  /-- The height with its transactions. -/
  current : FetchedBlock
  /-- The heights of the same chunk that follow. -/
  later : List FetchedBlock
  /-- The attempt under way. -/
  retry : Retry

/-- What the sequencer is doing. -/
inductive SequencerPhase where
  /-- It takes the due chunk out of the buffer. -/
  | popping (call : CallPhase)
  /-- It writes a block. -/
  | savingBlock (job : CommitJob)
  /-- It writes a transaction; `later` follow. -/
  | savingTx (job : CommitJob) (tx : TxResult) (later : List TxResult)
  /-- An attempt has failed and the next one follows after a pause. -/
  | pausing (job : CommitJob) (length : Nat)
  /-- It is about to throw away what is left in the buffer. -/
  | draining
  /-- It has ended. -/
  | exited (result : Except Failure Unit)

/-- What moves the sequencer. -/
inductive SequencerSignal where
  /-- It goes on by itself. -/
  | turn
  /-- Its pause is over. -/
  | elapsed
  /-- The outcome of a write; one that fails has stored nothing. -/
  | written (outcome : Except Failure Unit)
  /-- It notices that the run is cancelled. -/
  | cancel

/-- The sequencer. -/
structure Sequencer where
  /-- How storing is retried. -/
  policy : Retry.Policy
  /-- The height that is committed next. -/
  nextCommit : Nat
  /-- What it is doing. -/
  phase : SequencerPhase

namespace Sequencer

/-- A sequencer that has not begun. -/
def start (policy : Retry.Policy) (nextCommit : Nat) : Sequencer :=
  ⟨policy, nextCommit, .popping .fresh⟩

/-- The sequencer in another phase. -/
def goTo (q : Sequencer) (phase : SequencerPhase) : Sequencer := { q with phase := phase }

/-- Begins with the first of these heights, or with a new chunk if there is none. -/
def beginHeight (q : Sequencer) (s : Shared) : List FetchedBlock → Sequencer
  | [] => q.goTo (.popping .fresh)
  | f :: later =>
      if s.isCancelled then q.goTo .draining else q.goTo (.savingBlock ⟨f, later, .start q.policy⟩)

/-- A chunk was taken out; its lowest height must be the one that is committed next. -/
def chunkPopped (q : Sequencer) (s : Shared) (chunk : CompletedChunk) : Sequencer :=
  if chunk.range.first ≠ q.nextCommit then
    q.goTo (.exited (.error (.ofText
      s!"sequencer expected chunk at {q.nextCommit} but received {chunk.range.message}")))
  else q.beginHeight s chunk.blocks

/-- What is marked, counted and published once a height is stored. -/
def announce (f : FetchedBlock) (s : Shared) : Shared :=
  { s with
    progress := s.progress.mark f.height
    telemetry := (s.telemetry.committed 1 f.txs.length).published (1 + f.txs.length)
    publisher := s.publisher.publishAll f.events }

/-- A height is stored. -/
def heightStored (q : Sequencer) (s : Shared) (job : CommitJob) : Sequencer × Shared :=
  let s := announce job.current s
  (beginHeight { q with nextCommit := Height.next job.current.height } s job.later, s)

/-- The writes of a height that are left: the next one, or none. -/
def nextWrite (q : Sequencer) (s : Shared) (job : CommitJob) : List TxResult → Sequencer × Shared
  | [] => q.heightStored s job
  | tx :: later => (q.goTo (.savingTx job tx later), s)

/-- The write that a failure names; without a name it counts as the one of the block. -/
def writeOf (failure : Failure) : StorageOp := failure.storageOp?.getD .saveBlock

/-- What follows from a failed write. -/
def writeFailed (q : Sequencer) (s : Shared) (job : CommitJob) (op : StorageOp)
    (failure : Failure) :
    Sequencer × Shared :=
  let failure := failure.under (.write op)
  match job.retry.judge false with
  | .pause length =>
      (q.goTo (.pausing job length), { s with telemetry := s.telemetry.storageRetry })
  | _ =>
      let (returned, shutdown) :=
        s.shutdown.storageFailed ⟨writeOf failure, job.current.height, job.retry.attempt⟩ failure
      (q.goTo (.exited (.error returned)), { s with shutdown := shutdown })

/-- The next step of the call that takes the due chunk out. -/
def pop (q : Sequencer) (s : Shared) (call : CallPhase) : Option (Sequencer × Shared) :=
  match s.buffer.stepPop .sequencer call with
  | some (.goOn call, buffer) => some (q.goTo (.popping call), { s with buffer := buffer })
  | some (.finished chunk, buffer) => some (q.chunkPopped s chunk, { s with buffer := buffer })
  | none => none

/-- What a signal makes of the sequencer; nothing if it is not meant for what the sequencer is
doing. -/
def step (q : Sequencer) (s : Shared) (signal : SequencerSignal) : Option (Sequencer × Shared) :=
  match q.phase, signal with
  | .popping call, .turn => if s.isCancelled then none else q.pop s call
  | .popping _, .cancel =>
      if s.isCancelled then some (q.goTo .draining, { s with buffer := s.buffer.forget .sequencer })
      else none
  | .savingBlock job, .written (.ok _) =>
      some (q.nextWrite { s with store := s.store.putBlock job.current.block } job job.current.txs)
  | .savingBlock job, .written (.error e) => some (q.writeFailed s job .saveBlock e)
  | .savingTx job tx later, .written (.ok _) =>
      some (q.nextWrite { s with store := s.store.putTx tx } job later)
  | .savingTx job tx _, .written (.error e) => some (q.writeFailed s job (.saveTx tx.index) e)
  | .pausing job _, .elapsed =>
      if s.isCancelled then some (q.goTo .draining, s)
      else some (q.goTo (.savingBlock { job with retry := job.retry.again }), s)
  | .pausing _ _, .cancel => if s.isCancelled then some (q.goTo .draining, s) else none
  | .draining, .turn => some (q.goTo (.exited (.ok ())), { s with buffer := s.buffer.clear.2 })
  | _, _ => none

end Sequencer

end BlockIngest
