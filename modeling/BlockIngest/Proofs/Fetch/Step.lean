import BlockIngest.Pipeline.Worker
import BlockIngest.Proofs.Commit.Effect

/-!
# The steps of a worker

A step of a worker is one of few.  They are listed here as a relation, each with
all that the step has checked.  Whatever a worker does with a range, it holds it
from the step that claims it to the one that gives it back, hands it on or breaks
off.

## Main definitions

* `WorkerPhase.job?`, `WorkerPhase.held?` — what a worker fetches, and the range that
  it holds.
* `Worker.Fails` — how an attempt at a range fails.
* `Worker.Step` — the steps.
* `WorkerPhase.Fits` — what was fetched are the lowest heights of the range.

## Main results

* `Worker.step_cases` — **a step is one of those listed.**
* `Worker.fits_step` — what was fetched always makes a chunk in the end.
-/

namespace BlockIngest

/-- The job that a worker is fetching. -/
def WorkerPhase.job? : WorkerPhase → Option FetchJob
  | .awaitingBlock job => some job
  | .awaitingResults job _ => some job
  | .pausing job _ => some job
  | _ => none

/-- The range that a worker holds: it is fetching it, or hands its chunk on. -/
def WorkerPhase.held? : WorkerPhase → Option ChunkRange
  | .submitting chunk _ => some chunk.range
  | phase => phase.job?.map FetchJob.range

theorem WorkerPhase.held?_of_job? {phase : WorkerPhase} {job : FetchJob}
    (h : phase.job? = some job) : phase.held? = some job.range := by
  cases phase <;> cases h <;> rfl

namespace Worker

/-- How an attempt at a range fails: the node does not answer, or its answer is not
the one that was asked for. -/
inductive Fails : WorkerPhase → WorkerSignal → FetchJob → Failure → Prop
  /-- There is no block. -/
  | noBlock {job : FetchJob} {e : Failure} :
      Fails (.awaitingBlock job) (.block (.error e)) job e
  /-- The block is another one. -/
  | otherBlock {job : FetchJob} {b : Block} (hheight : b.height ≠ job.height) :
      Fails (.awaitingBlock job) (.block (.ok b)) job
        (.ofRpc (.inconsistent job.height s!"node returned block {b.height}"))
  /-- There are no outcomes. -/
  | noResults {job : FetchJob} {b : Block} {e : Failure} :
      Fails (.awaitingResults job b) (.results (.error e)) job e
  /-- The outcomes do not fit the block. -/
  | otherResults {job : FetchJob} {b : Block} {r : BlockResults} {e : RpcError}
      (hassemble : FetchedBlock.assemble b r = .error e) :
      Fails (.awaitingResults job b) (.results (.ok r)) job (.ofRpc e)

theorem Fails.job?_eq {phase : WorkerPhase} {signal : WorkerSignal} {job : FetchJob} {e : Failure}
    (h : Fails phase signal job e) : phase.job? = some job := by
  cases h <;> rfl

/-- The steps of a worker: what it was doing, what it does next, and what the tasks
share before and after. -/
inductive Step (settings : Settings) (id : ℕ) (s : Shared) :
    WorkerPhase → WorkerSignal → WorkerPhase → Shared → Prop
  /-- Without a range it obeys the cancellation. -/
  | stopped {phase : WorkerPhase} {signal : WorkerSignal}
      (hphase : phase = .ready ∧ signal = .turn ∨ phase = .idle ∧ signal = .cancel)
      (hcancel : s.isCancelled) : Step settings id s phase signal (.exited .stopped) s
  /-- It claims a range. -/
  | claimed {r : ChunkRange} {p : Planner} (hrun : ¬ s.isCancelled)
      (hnext : s.planner.next = (some r, p)) (hsize : r.size ≤ FetchJob.mostHeights) :
      Step settings id s .ready .turn (.awaitingBlock (.start settings.retry r))
        { s with planner := p }
  /-- It claims a range of too many heights. -/
  | overflowed {r : ChunkRange} {p : Planner} (hrun : ¬ s.isCancelled)
      (hnext : s.planner.next = (some r, p)) (hsize : FetchJob.mostHeights < r.size) :
      Step settings id s .ready .turn (.exited (.panicked "capacity overflow"))
        { s with planner := p }
  /-- It finds no range. -/
  | rested (hrun : ¬ s.isCancelled) (hnext : s.planner.next = (none, s.planner)) :
      Step settings id s .ready .turn .idle s
  /-- It looks for a range again. -/
  | rose : Step settings id s .idle .elapsed .ready s
  /-- It gets the block that it asked for. -/
  | received {job : FetchJob} {b : Block} (hheight : b.height = job.height) :
      Step settings id s (.awaitingBlock job) (.block (.ok b)) (.awaitingResults job b) s
  /-- A height is fetched, and another one follows. -/
  | fetched {job : FetchJob} {b : Block} {r : BlockResults} {f : FetchedBlock}
      (hassemble : FetchedBlock.assemble b r = .ok f) (hmore : ¬ (job.add f).isDone) :
      Step settings id s (.awaitingResults job b) (.results (.ok r)) (.awaitingBlock (job.add f)) s
  /-- The last height is fetched, and the chunk is handed on. -/
  | completed {job : FetchJob} {b : Block} {r : BlockResults} {f : FetchedBlock}
      {d : CompletedChunk} (hassemble : FetchedBlock.assemble b r = .ok f)
      (hdone : (job.add f).isDone)
      (hmake : CompletedChunk.make job.range (job.add f).fetched = .ok d) :
      Step settings id s (.awaitingResults job b) (.results (.ok r)) (.submitting d .fresh) s
  /-- The last height is fetched, and makes no chunk with the others. -/
  | misfit {job : FetchJob} {b : Block} {r : BlockResults} {f : FetchedBlock} {text : String}
      (hassemble : FetchedBlock.assemble b r = .ok f) (hdone : (job.add f).isDone)
      (hmake : CompletedChunk.make job.range (job.add f).fetched = .error text) :
      Step settings id s (.awaitingResults job b) (.results (.ok r))
        (.exited (.failed (.ofText text))) s
  /-- An attempt fails, and another one follows after a pause. -/
  | paused {phase : WorkerPhase} {signal : WorkerSignal} {job : FetchJob} {e : Failure}
      {length : ℕ} (hfails : Fails phase signal job e) (hmissing : missing? e = none)
      (hjudge : job.retry.judge false = .pause length) :
      Step settings id s phase signal (.pausing job length)
        { s with telemetry := countFailure e s.telemetry }
  /-- The last attempt fails. -/
  | gaveUp {phase : WorkerPhase} {signal : WorkerSignal} {job : FetchJob} {e : Failure}
      (hfails : Fails phase signal job e) (hmissing : missing? e = none)
      (hlast : job.retry.isLast) :
      Step settings id s phase signal .ready
        (Shared.giveUp { s with telemetry := countFailure e s.telemetry } job.range)
  /-- The node is behind its head. -/
  | behind {phase : WorkerPhase} {signal : WorkerSignal} {job : FetchJob} {e : Failure} {h : ℕ}
      (hfails : Fails phase signal job e) (hmissing : missing? e = some h) :
      Step settings id s phase signal .ready ((s.observe (Height.prev h)).giveUp job.range)
  /-- The pause is over, and the range is tried again from its lowest height. -/
  | retried {job : FetchJob} {length : ℕ} (hrun : ¬ s.isCancelled) :
      Step settings id s (.pausing job length) .elapsed (.awaitingBlock job.again) s
  /-- It obeys the cancellation while it fetches. -/
  | abandoned {phase : WorkerPhase} {signal : WorkerSignal} {job : FetchJob}
      (hjob : phase.job? = some job) (hcancel : s.isCancelled)
      (hsignal : signal = .cancel ∨ (∃ length, phase = .pausing job length) ∧ signal = .elapsed) :
      Step settings id s phase signal (.exited .stopped) (s.giveBack job.range)
  /-- A call to the node breaks off. -/
  | panicked {phase : WorkerPhase} {job : FetchJob} {text : String}
      (hcalling : phase = .awaitingBlock job ∨ ∃ b, phase = .awaitingResults job b) :
      Step settings id s phase (.panic text) (.exited (.panicked text)) s
  /-- It begins to listen to the buffer. -/
  | listened {d : CompletedChunk} :
      Step settings id s (.submitting d .fresh) .turn (.submitting d .looking)
        { s with buffer := s.buffer.listen (.worker id) }
  /-- Its chunk is let in. -/
  | admitted {d : CompletedChunk} (hadmission : s.buffer.admission d = .stored) :
      Step settings id s (.submitting d .looking) .turn .ready
        (Shared.settle { s with buffer := (s.buffer.offer d).2.forget (.worker id) } d.range)
  /-- Its chunk is dropped because it lies below what is due. -/
  | dropped {d : CompletedChunk} (hadmission : s.buffer.admission d = .stale) :
      Step settings id s (.submitting d .looking) .turn .ready
        (Shared.settle { s with buffer := s.buffer.forget (.worker id) } d.range)
  /-- There is no room for its chunk. -/
  | refused {d : CompletedChunk} (hadmission : s.buffer.admission d = .full) :
      Step settings id s (.submitting d .looking) .turn (.submitting d .waiting) s
  /-- It is told that the buffer has changed. -/
  | told {d : CompletedChunk} (htold : ¬ s.buffer.isListening (.worker id)) :
      Step settings id s (.submitting d .waiting) .turn (.submitting d .fresh) s
  /-- It obeys the cancellation while it waits for room. -/
  | withdrew {d : CompletedChunk} {call : CallPhase} (hcancel : s.isCancelled) :
      Step settings id s (.submitting d call) .cancel (.exited .stopped)
        (Shared.giveBack { s with buffer := s.buffer.forget (.worker id) } d.range)

variable {settings : Settings} {id : ℕ} {s s' : Shared} {phase next : WorkerPhase}
  {signal : WorkerSignal}

theorem takeUp_of_le {r : ChunkRange} (h : r.size ≤ FetchJob.mostHeights) :
    takeUp settings r = .awaitingBlock (.start settings.retry r) :=
  if_pos h

theorem takeUp_of_lt {r : ChunkRange} (h : FetchJob.mostHeights < r.size) :
    takeUp settings r = .exited (.panicked "capacity overflow") :=
  if_neg (Nat.not_le_of_lt h)

/-! ### A step is one of those listed -/

theorem step_of_seek (h : seek settings s = (next, s')) :
    Step settings id s .ready .turn next s' := by
  unfold seek at h
  split at h
  · next hcancel =>
    cases h
    exact .stopped (Or.inl ⟨rfl, rfl⟩) hcancel
  · next hrun =>
    have hclaim : s.claim = (s.planner.next.1, { s with planner := s.planner.next.2 }) := rfl
    rw [hclaim] at h
    rcases hnext : s.planner.next with ⟨_ | r, p⟩
    · -- nothing is changed by a planner that hands out nothing
      have hp : p = s.planner := by
        unfold Planner.next at hnext
        split at hnext
        · cases hnext
        · split at hnext
          · cases hnext
          · exact (congrArg Prod.snd hnext).symm
      subst hp
      rw [hnext] at h
      cases h
      exact .rested hrun hnext
    · rw [hnext] at h
      cases h
      rcases Nat.lt_or_ge FetchJob.mostHeights r.size with hsize | hsize
      · rw [takeUp_of_lt hsize]
        exact .overflowed hrun hnext hsize
      · rw [takeUp_of_le hsize]
        exact .claimed hrun hnext hsize

/-- What follows from a failed attempt depends on whether the height is missing, and
else on whether it was the last one. -/
theorem step_of_failed {job : FetchJob} {e : Failure} (hfails : Fails phase signal job e)
    (h : attemptFailed s job e = (next, s')) : Step settings id s phase signal next s' := by
  unfold attemptFailed at h
  rcases hmissing : missing? e with _ | k
  · simp only [hmissing] at h
    by_cases hlast : job.retry.isLast
    · have hjudge : job.retry.judge false = .giveUp := by
        simp only [Retry.judge, Bool.false_eq_true, if_false, hlast, if_true]
      rw [hjudge] at h
      cases h
      exact .gaveUp hfails hmissing hlast
    · have hjudge : job.retry.judge false = .pause job.retry.delay := by
        simp only [Retry.judge, Bool.false_eq_true, if_false, hlast]
      rw [hjudge] at h
      cases h
      exact .paused hfails hmissing hjudge
  · simp only [hmissing] at h
    cases h
    exact .behind hfails hmissing

theorem step_of_block {job : FetchJob} {b : Block} (h : blockArrived s job b = (next, s')) :
    Step settings id s (.awaitingBlock job) (.block (.ok b)) next s' := by
  unfold blockArrived at h
  split at h
  · next hheight => exact step_of_failed (.otherBlock hheight) h
  · next hheight =>
    cases h
    exact .received (Decidable.of_not_not hheight)

theorem step_of_results {job : FetchJob} {b : Block} {r : BlockResults}
    (h : resultsArrived s job b r = (next, s')) :
    Step settings id s (.awaitingResults job b) (.results (.ok r)) next s' := by
  unfold resultsArrived at h
  rcases hassemble : FetchedBlock.assemble b r with e | f
  · rw [hassemble] at h
    exact step_of_failed (.otherResults hassemble) h
  · simp only [hassemble] at h
    split at h
    · next hdone =>
      cases h
      unfold fetched
      split
      · next d hmake => exact .completed hassemble hdone hmake
      · next text hmake => exact .misfit hassemble hdone hmake
    · next hmore =>
      cases h
      exact .fetched hassemble hmore

theorem step_of_submit {d : CompletedChunk} {call : CallPhase}
    (h : submit id s d call = some (next, s')) :
    Step settings id s (.submitting d call) .turn next s' := by
  cases call with
  | fresh =>
    cases h
    exact .listened
  | looking =>
    -- the answer of the buffer decides, and only a chunk that is let in changes it
    rcases hadmission : s.buffer.admission d with _ | _ | _
    · have hoffer : s.buffer.offer d = (.stale, s.buffer) := by
        unfold Buffer.offer
        rw [hadmission]
      simp only [submit, Buffer.stepPush, hoffer] at h
      cases h
      exact .dropped hadmission
    · have hoffer : s.buffer.offer d = (.stored, (s.buffer.offer d).2) := by
        unfold Buffer.offer
        rw [hadmission]
      rw [submit, Buffer.stepPush, hoffer] at h
      cases h
      exact .admitted hadmission
    · have hoffer : s.buffer.offer d = (.full, s.buffer) := by
        unfold Buffer.offer
        rw [hadmission]
      simp only [submit, Buffer.stepPush, hoffer] at h
      cases h
      exact .refused hadmission
  | waiting =>
    by_cases htold : s.buffer.isListening (.worker id)
    · simp only [submit, Buffer.stepPush, htold, if_true] at h
      cases h
    · simp only [submit, Buffer.stepPush, htold] at h
      cases h
      exact .told htold

theorem step_of_cancel (hcancel : s.isCancelled) (h : cancel id s phase = some (next, s')) :
    Step settings id s phase .cancel next s' := by
  cases phase with
  | ready | exited => cases h
  | idle =>
    cases h
    exact .stopped (Or.inr ⟨rfl, rfl⟩) hcancel
  | awaitingBlock job | awaitingResults job b | pausing job length =>
    cases h
    exact .abandoned rfl hcancel (Or.inl rfl)
  | submitting d call =>
    cases h
    exact .withdrew hcancel

/-- **A step is one of those listed.** -/
theorem step_cases (h : step settings id s phase signal = some (next, s')) :
    Step settings id s phase signal next s' := by
  unfold step at h
  split at h
  case h_1 => exact step_of_seek (Option.some.inj h)
  case h_2 =>
    cases h
    exact .rose
  case h_3 job b => exact step_of_block (Option.some.inj h)
  case h_4 job e => exact step_of_failed .noBlock (Option.some.inj h)
  case h_5 job text =>
    cases h
    exact .panicked (Or.inl rfl)
  case h_6 job b r => exact step_of_results (Option.some.inj h)
  case h_7 job b e => exact step_of_failed .noResults (Option.some.inj h)
  case h_8 job b text =>
    cases h
    exact .panicked (Or.inr ⟨b, rfl⟩)
  case h_9 job length =>
    split at h
    · next hcancel =>
      cases h
      exact .abandoned rfl hcancel (Or.inr ⟨⟨length, rfl⟩, rfl⟩)
    · next hrun =>
      cases h
      exact .retried hrun
  case h_10 d call => exact step_of_submit h
  case h_11 =>
    split at h
    · next hcancel => exact step_of_cancel hcancel h
    · cases h
  case h_12 => cases h

end Worker

/-! ### What was fetched makes a chunk -/

/-- What a job has fetched are the lowest heights of its range, and some are left. -/
def FetchJob.Fits (j : FetchJob) : Prop :=
  Consecutive j.range.first j.fetched ∧ j.fetched.length < j.range.size

/-- What a worker is fetching fits its range, and it does not end in failure. -/
def WorkerPhase.Fits : WorkerPhase → Prop
  | .awaitingBlock job => job.Fits
  | .awaitingResults job b => job.Fits ∧ b.height = job.height
  | .pausing job _ => job.Fits
  | .exited (.failed _) => False
  | _ => True

theorem WorkerPhase.Fits.job {phase : WorkerPhase} {job : FetchJob} (h : phase.Fits)
    (hjob : phase.job? = some job) : job.Fits := by
  cases phase with
  | awaitingBlock | pausing =>
    cases hjob
    exact h
  | awaitingResults =>
    cases hjob
    exact h.1
  | ready | idle | submitting | exited => cases hjob

namespace CompletedChunk

theorem misplaced?_eq_none {due : ℕ} {fs : List FetchedBlock} (h : Consecutive due fs) :
    misplaced? due fs = none := by
  induction fs generalizing due with
  | nil => rfl
  | cons f fs ih =>
    obtain ⟨hf, hfs⟩ := consecutive_cons.mp h
    rw [misplaced?, if_pos hf]
    exact ih hfs

/-- The heights of a range make a chunk. -/
theorem make_of_consecutive {r : ChunkRange} {fs : List FetchedBlock}
    (hheights : Consecutive r.first fs) (hlength : fs.length = r.size) :
    ∃ d, make r fs = .ok d := by
  unfold make
  rw [dif_neg (not_not_intro hlength)]
  split
  · next hplace =>
    rw [misplaced?_eq_none hheights] at hplace
    cases hplace
  · exact ⟨_, rfl⟩

end CompletedChunk

namespace FetchJob

variable {j : FetchJob} {f : FetchedBlock}

theorem fits_start (p : Retry.Policy) (r : ChunkRange) : (start p r).Fits :=
  ⟨rfl, Nat.succ_pos _⟩

theorem length_add (j : FetchJob) (f : FetchedBlock) :
    (j.add f).fetched.length = j.fetched.length + 1 := List.length_append

theorem Fits.again (h : j.Fits) : j.again.Fits := ⟨rfl, Nat.zero_lt_of_lt h.2⟩

/-- The height that is asked for lies in the range. -/
theorem Fits.mem_height (h : j.Fits) : j.range.Mem j.height := by
  have hlt := h.2
  have hordered := j.range.ordered
  unfold ChunkRange.size at hlt
  unfold ChunkRange.Mem FetchJob.height
  omega

theorem Fits.consecutive_add (h : j.Fits) (hf : f.height = j.height) :
    Consecutive j.range.first (j.add f).fetched :=
  consecutive_append.mpr ⟨h.1, consecutive_cons.mpr ⟨hf, rfl⟩⟩

theorem Fits.add (h : j.Fits) (hf : f.height = j.height) (hmore : ¬ (j.add f).isDone) :
    (j.add f).Fits := by
  refine ⟨h.consecutive_add hf, ?_⟩
  simpa [isDone] using hmore

/-- Once no height is left, those that were fetched make a chunk. -/
theorem Fits.make (h : j.Fits) (hf : f.height = j.height) (hdone : (j.add f).isDone) :
    ∃ d, CompletedChunk.make j.range (j.add f).fetched = .ok d := by
  refine CompletedChunk.make_of_consecutive (h.consecutive_add hf) ?_
  have hlt := h.2
  have hle : j.range.size ≤ (j.add f).fetched.length := of_decide_eq_true hdone
  have hlength := j.length_add f
  omega

end FetchJob

namespace Worker

variable {settings : Settings} {id : ℕ} {s s' : Shared} {phase next : WorkerPhase}
  {signal : WorkerSignal}

theorem Fails.fits {job : FetchJob} {e : Failure} (h : Fails phase signal job e)
    (hfits : phase.Fits) : job.Fits := by
  cases h with
  | noBlock | otherBlock => exact hfits
  | noResults | otherResults => exact hfits.1

/-- **A worker that fetches what fits its range goes on so**, and never ends in
failure. -/
theorem fits_step (h : Step settings id s phase signal next s') (hfits : phase.Fits) :
    next.Fits := by
  cases h with
  | claimed => exact FetchJob.fits_start _ _
  | received hheight => exact ⟨hfits, hheight⟩
  | fetched hassemble hmore =>
    obtain ⟨hjob, hheight⟩ := hfits
    exact hjob.add ((FetchedBlock.height_of_assemble hassemble).trans hheight) hmore
  | misfit hassemble hdone hmake =>
    -- the heights of a range that fits do make a chunk
    obtain ⟨hjob, hheight⟩ := hfits
    obtain ⟨d, hd⟩ := hjob.make ((FetchedBlock.height_of_assemble hassemble).trans hheight) hdone
    rw [hd] at hmake
    cases hmake
  | paused hfails => exact hfails.fits hfits
  | retried => exact FetchJob.Fits.again hfits
  | stopped | overflowed | rested | rose | completed | gaveUp | behind | abandoned | panicked
  | listened | admitted | dropped | refused | told | withdrew => trivial

end Worker
end BlockIngest
