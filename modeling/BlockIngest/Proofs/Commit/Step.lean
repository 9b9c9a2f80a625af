import BlockIngest.Proofs.Commit.Effect

/-!
# The steps of the sequencer

A step of the sequencer is one of few.  They are listed here as a relation, each
with all that the step has checked; writing a block and writing a transaction
are one case, a pending write after which some transactions are left.

## Main definitions

* `SequencerPhase.pending?` — the write that the sequencer waits for.
* `Sequencer.Step` — the steps.
* `Sequencer.effects`, `Sequencer.taken` — what a step does to the world outside,
  and the chunk that it takes out of the buffer.

## Main results

* `Sequencer.step_cases` — **a step is one of those listed.**
* `Sequencer.ledger_step` — **the effects of a step account for what it changes.**
-/

namespace BlockIngest

/-- The write that the sequencer waits for, with its height and the transactions
that are left after it. -/
def SequencerPhase.pending? : SequencerPhase → Option (CommitJob × Write × List TxResult)
  | .savingBlock job => some (job, .block job.current.block, job.current.txs)
  | .savingTx job tx later => some (job, .tx tx, later)
  | _ => none

theorem CompletedChunk.length_blocks (c : CompletedChunk) : c.blocks.length = c.range.size := by
  rw [← ChunkRange.length_heights, ← c.heights_eq, List.length_map]

theorem CompletedChunk.consecutive_blocks (c : CompletedChunk) :
    Consecutive c.range.first c.blocks := by
  unfold Consecutive
  rw [c.heights_eq, c.length_blocks]
  rfl

namespace Sequencer

/-- The steps of the sequencer: what it was doing, what it does next, and what the
tasks share before and after. -/
inductive Step (q : Sequencer) (s : Shared) : SequencerSignal → Sequencer → Shared → Prop
  /-- It begins to listen to the buffer. -/
  | listened (hphase : q.phase = .popping .fresh) (hrun : ¬ s.isCancelled) :
      Step q s .turn (q.goTo (.popping .looking)) { s with buffer := s.buffer.listen .sequencer }
  /-- It takes out the chunk that begins at the height committed next. -/
  | took {c : CompletedChunk} {b : Buffer} (hphase : q.phase = .popping .looking)
      (hrun : ¬ s.isCancelled) (htake : s.buffer.take = (some c, b))
      (hfirst : c.range.first = q.nextCommit) :
      Step q s .turn (q.beginHeight s c.blocks) { s with buffer := b.announce }
  /-- It takes out any other chunk and breaks off. -/
  | brokeOff {c : CompletedChunk} {b : Buffer} {e : Failure}
      (hphase : q.phase = .popping .looking) (hrun : ¬ s.isCancelled)
      (htake : s.buffer.take = (some c, b)) (hfirst : c.range.first ≠ q.nextCommit) :
      Step q s .turn (q.goTo (.exited (.error e))) { s with buffer := b.announce }
  /-- It finds no chunk that is due. -/
  | missed {b : Buffer} (hphase : q.phase = .popping .looking) (hrun : ¬ s.isCancelled)
      (htake : s.buffer.take = (none, b)) :
      Step q s .turn (q.goTo (.popping .waiting)) { s with buffer := b }
  /-- It is told that the buffer has changed. -/
  | woke (hphase : q.phase = .popping .waiting) (hrun : ¬ s.isCancelled)
      (htold : ¬ s.buffer.isListening .sequencer) :
      Step q s .turn (q.goTo (.popping .fresh)) s
  /-- It obeys the cancellation while it waits for a chunk. -/
  | left {call : CallPhase} (hphase : q.phase = .popping call) (hcancel : s.isCancelled) :
      Step q s .cancel (q.goTo .draining) { s with buffer := s.buffer.forget .sequencer }
  /-- A write succeeds, and another one of the same height follows. -/
  | wrote {job : CommitJob} {w : Write} {tx : TxResult} {later : List TxResult}
      (hpending : q.phase.pending? = some (job, w, tx :: later)) :
      Step q s (.written (.ok ())) (q.goTo (.savingTx job tx later))
        { s with store := w.put s.store }
  /-- The last write of a height succeeds. -/
  | stored {job : CommitJob} {w : Write} (hpending : q.phase.pending? = some (job, w, [])) :
      Step q s (.written (.ok ())) (q.heightStored { s with store := w.put s.store } job).1
        (q.heightStored { s with store := w.put s.store } job).2
  /-- A write fails, and another attempt follows after a pause. -/
  | paused {job : CommitJob} {w : Write} {later : List TxResult} {e : Failure} {length : ℕ}
      (hpending : q.phase.pending? = some (job, w, later))
      (hjudge : job.retry.judge false = .pause length) :
      Step q s (.written (.error e)) (q.goTo (.pausing job length))
        { s with telemetry := s.telemetry.storageRetry }
  /-- A write fails, and the height is given up. -/
  | gaveUp {job : CommitJob} {w : Write} {later : List TxResult} {e failure : Failure}
      {error : StorageError} (hpending : q.phase.pending? = some (job, w, later))
      (hjudge : job.retry.isLast) (hfailure : failure = e.under (.write w.op))
      (herror : error = ⟨writeOf failure, job.current.height, job.retry.attempt⟩) :
      Step q s (.written (.error e))
        (q.goTo (.exited (.error (s.shutdown.storageFailed error failure).1)))
        { s with shutdown := (s.shutdown.storageFailed error failure).2 }
  /-- The pause is over, and the height is tried again from its block. -/
  | retried {job : CommitJob} {length : ℕ} (hphase : q.phase = .pausing job length)
      (hrun : ¬ s.isCancelled) :
      Step q s .elapsed (q.goTo (.savingBlock { job with retry := job.retry.again })) s
  /-- It obeys the cancellation in a pause or at its end. -/
  | stopped {job : CommitJob} {length : ℕ} {signal : SequencerSignal}
      (hphase : q.phase = .pausing job length) (hcancel : s.isCancelled)
      (hsignal : signal = .elapsed ∨ signal = .cancel) : Step q s signal (q.goTo .draining) s
  /-- It throws away what is left in the buffer, and ends. -/
  | ended (hphase : q.phase = .draining) :
      Step q s .turn (q.goTo (.exited (.ok ()))) { s with buffer := s.buffer.clear.2 }

variable {q q' : Sequencer} {s s' : Shared} {signal : SequencerSignal}

/-! ### A step is one of those listed -/

theorem step_of_pop {call : CallPhase} (hphase : q.phase = .popping call) (hrun : ¬ s.isCancelled)
    (h : q.pop s call = some (q', s')) : Step q s .turn q' s' := by
  cases call with
  | fresh =>
    cases h
    exact .listened hphase hrun
  | looking =>
    rcases htake : s.buffer.take with ⟨_ | c, b⟩
    · simp only [pop, Buffer.stepPop, htake] at h
      cases h
      exact .missed hphase hrun htake
    · simp only [pop, Buffer.stepPop, htake] at h
      cases h
      unfold chunkPopped
      split
      · next hfirst => exact .brokeOff hphase hrun htake hfirst
      · next hfirst => exact .took hphase hrun htake (Decidable.of_not_not hfirst)
  | waiting =>
    by_cases htold : s.buffer.isListening .sequencer
    · simp only [pop, Buffer.stepPop, htold, if_true] at h
      cases h
    · simp only [pop, Buffer.stepPop, htold] at h
      cases h
      exact .woke hphase hrun htold

/-- A write that succeeded is followed by the next one, or closes the height. -/
theorem step_of_written {job : CommitJob} {w : Write} {later : List TxResult}
    (hpending : q.phase.pending? = some (job, w, later))
    (h : q.nextWrite { s with store := w.put s.store } job later = (q', s')) :
    Step q s (.written (.ok ())) q' s' := by
  cases later with
  | nil =>
    cases h
    exact .stored hpending
  | cons tx later =>
    cases h
    exact .wrote hpending

/-- The write that a sequencer waits for may succeed. -/
theorem step_written {job : CommitJob} {w : Write} {later : List TxResult}
    (hpending : q.phase.pending? = some (job, w, later)) (s : Shared) :
    q.step s (.written (.ok ()))
      = some (q.nextWrite { s with store := w.put s.store } job later) := by
  rcases hphase : q.phase with _ | job' | ⟨job', tx, later'⟩ | _ | _ | _
  all_goals
    rw [hphase] at hpending
    cases hpending
  all_goals
    unfold step
    rw [hphase]
    rfl

/-- A write that failed is followed by a pause, or is the last one. -/
theorem step_of_failed {job : CommitJob} {w : Write} {later : List TxResult} {e : Failure}
    (hpending : q.phase.pending? = some (job, w, later))
    (h : q.writeFailed s job w.op e = (q', s')) : Step q s (.written (.error e)) q' s' := by
  unfold writeFailed at h
  by_cases hlast : job.retry.isLast
  · have hjudge : job.retry.judge false = .giveUp := by
      unfold Retry.judge
      simp only [Bool.false_eq_true, if_false, hlast, if_true]
    rw [hjudge] at h
    cases h
    exact .gaveUp hpending hlast rfl rfl
  · have hjudge : job.retry.judge false = .pause job.retry.delay := by
      unfold Retry.judge
      simp only [Bool.false_eq_true, if_false, hlast]
    rw [hjudge] at h
    cases h
    exact .paused hpending hjudge

/-- **A step is one of those listed.** -/
theorem step_cases (h : q.step s signal = some (q', s')) : Step q s signal q' s' := by
  unfold step at h
  split at h
  case h_1 hphase =>
    split at h
    · cases h
    · next hrun => exact step_of_pop hphase hrun h
  case h_2 hphase =>
    split at h
    · next hcancel =>
      cases h
      exact .left hphase hcancel
    · cases h
  -- from here on both kinds of writes are one
  case h_3 job _ hphase =>
    exact step_of_written (w := .block job.current.block) (by rw [hphase]; rfl) (Option.some.inj h)
  case h_4 job e hphase =>
    exact step_of_failed (w := .block job.current.block) (by rw [hphase]; rfl) (Option.some.inj h)
  case h_5 job tx later _ hphase =>
    exact step_of_written (w := .tx tx) (by rw [hphase]; rfl) (Option.some.inj h)
  case h_6 job tx later e hphase =>
    exact step_of_failed (w := .tx tx) (by rw [hphase]; rfl) (Option.some.inj h)
  case h_7 job length hphase =>
    split at h
    · next hcancel =>
      cases h
      exact .stopped hphase hcancel (Or.inl rfl)
    · next hrun =>
      cases h
      exact .retried hphase hrun
  case h_8 job length hphase =>
    split at h
    · next hcancel =>
      cases h
      exact .stopped hphase hcancel (Or.inr rfl)
    · cases h
  case h_9 hphase =>
    cases h
    exact .ended hphase
  case h_10 => cases h

/-! ### Effects -/

/-- The effects of a step.  It has none unless it is the outcome of a write; if
that was the last one of its height and succeeded, the height is closed. -/
def effects (q : Sequencer) (signal : SequencerSignal) : List Effect :=
  match q.phase.pending?, signal with
  | some (job, w, []), .written (.ok ()) => .wrote w (.ok ()) :: job.current.closing
  | some (_, w, _), .written outcome => [.wrote w outcome]
  | _, _ => []

/-- The chunk that a step takes out of the buffer, if it takes one. -/
def taken (q : Sequencer) (s : Shared) (signal : SequencerSignal) : List CompletedChunk :=
  match q.phase, signal with
  | .popping .looking, .turn => s.buffer.take.1.toList
  | _, _ => []

section Pending

variable {job : CommitJob} {w : Write} {tx : TxResult} {later : List TxResult} {e : Failure}

theorem effects_wrote (h : q.phase.pending? = some (job, w, tx :: later)) :
    q.effects (.written (.ok ())) = [.wrote w (.ok ())] := by
  unfold effects
  rw [h]

theorem effects_stored (h : q.phase.pending? = some (job, w, [])) :
    q.effects (.written (.ok ())) = .wrote w (.ok ()) :: job.current.closing := by
  unfold effects
  rw [h]

theorem effects_failed (h : q.phase.pending? = some (job, w, later)) :
    q.effects (.written (.error e)) = [.wrote w (.error e)] := by
  unfold effects
  rw [h]
  cases later <;> rfl

theorem effects_eq_nil (h : q.phase.pending? = none) : q.effects signal = [] := by
  unfold effects
  rw [h]

end Pending

/-- A chunk is taken out only by a sequencer that looks for one. -/
theorem taken_eq_nil (h : q.phase ≠ .popping .looking) : q.taken s signal = [] := by
  unfold taken
  split
  · next hphase => exact absurd hphase h
  · rfl

theorem taken_of_pending {x : CommitJob × Write × List TxResult} (h : q.phase.pending? = some x) :
    q.taken s signal = [] :=
  taken_eq_nil fun hphase => by
    rw [hphase] at h
    cases h

theorem taken_of_take {c : Option CompletedChunk} {b : Buffer}
    (hphase : q.phase = .popping .looking) (htake : s.buffer.take = (c, b)) :
    q.taken s .turn = c.toList := by
  unfold taken
  rw [hphase, htake]

theorem taken_cancel (q : Sequencer) (s : Shared) : q.taken s .cancel = [] := by
  unfold taken
  split
  · next hsignal => cases hsignal
  · rfl

theorem ledger_announce (f : FetchedBlock) (s : Shared) :
    (announce f s).ledger = s.ledger.after f.closing := by
  rw [Ledger.after_closing]
  rfl

/-- **The effects of a step account for what it changes.** -/
theorem ledger_step (h : q.step s signal = some (q', s')) :
    s'.ledger = s.ledger.after (q.effects signal) := by
  cases step_cases h with
  | listened hphase | took hphase | brokeOff hphase | missed hphase | woke hphase | left hphase
  | retried hphase | ended hphase =>
    rw [effects_eq_nil (by rw [hphase]; rfl)]
    rfl
  | stopped hphase hcancel hsignal =>
    rw [effects_eq_nil (by rw [hphase]; rfl)]
    rfl
  | wrote hpending =>
    rw [effects_wrote hpending]
    rfl
  | stored hpending =>
    rw [effects_stored hpending]
    exact ledger_announce _ _
  | paused hpending | gaveUp hpending =>
    rw [effects_failed hpending]
    rfl

end Sequencer
end BlockIngest
