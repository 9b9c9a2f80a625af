import BlockIngest.Proofs.Fetch.Replies
import Mathlib.Data.List.ReduceOption

/-!
# What becomes of a range

A worker that has claimed a range takes one turn after another, and between them the other
tasks take theirs and may change what is shared in any way.  Whatever they do, the answers of
the node decide what becomes of the range, unless the run is cancelled before they have.  Of
the attempts that fail for a reason that is worth another one, each is counted once, and once
more among the timeouts if it is one; a height above the node's head is not counted.

A range of too many heights is never fetched: an attempt begins with a list that has room for all
of them, there is no such list, and the worker breaks off.

A turn follows from the one before only within an attempt, and an attempt only from the
failures of those before it; so the invariant speaks of these failures and of what the
attempt under way has fetched.

## Main definitions

* `Worker.Turn`, `Worker.Tallied` — a turn, and what turns count.
* `Worker.Fetching` — a range being fetched, from the turn that claimed it on.
* `ChunkOutcome.Follows` — what a worker does about an outcome.
* `Worker.Attempting`, `Worker.Underway` — the invariant.
* `Worker.Classified` — the law.

## Main results

* `Worker.reaches_step` — **every turn keeps the invariant**, or ends the range in the way that
  the answers decide.
* `Worker.turns_le` — a range takes a bounded number of turns.
* `Worker.classified_of_fetching` — **the law holds of every range that a list has room for.**
-/

namespace BlockIngest

namespace Shared

variable (s : Shared) (r : ChunkRange)

@[simp] theorem fetchErrors_giveUp :
    (s.giveUp r).telemetry.fetchErrors = s.telemetry.fetchErrors := by
  unfold giveUp
  split <;> rfl

@[simp] theorem fetchTimeouts_giveUp :
    (s.giveUp r).telemetry.fetchTimeouts = s.telemetry.fetchTimeouts := by
  unfold giveUp
  split <;> rfl

end Shared

namespace Worker

/-- A turn of a worker: what it was doing, and what the tasks shared before and after. -/
structure Turn where
  /-- What the worker was doing. -/
  phase : WorkerPhase
  /-- What the tasks shared before. -/
  before : Shared
  /-- What the tasks shared after. -/
  after : Shared

/-- Whether a turn counts this failure of an attempt, if any, and no other one. -/
def Turn.Counts (t : Turn) : Option Failure → Prop
  | none => t.after.telemetry.fetchErrors = t.before.telemetry.fetchErrors ∧
      t.after.telemetry.fetchTimeouts = t.before.telemetry.fetchTimeouts
  | some e => t.after.telemetry.fetchErrors = Counter.bump t.before.telemetry.fetchErrors 1 ∧
      ((∃ method, e.IsAbout (.timeout method)) →
        t.after.telemetry.fetchTimeouts = Counter.bump t.before.telemetry.fetchTimeouts 1) ∧
      ((∀ method, ¬ e.IsAbout (.timeout method)) →
        t.after.telemetry.fetchTimeouts = t.before.telemetry.fetchTimeouts)

/-- Whether turns count these failures in this order, each of them once. -/
def Tallied (ts : List Turn) (es : List Failure) : Prop :=
  ∃ notes, List.Forall₂ Turn.Counts ts notes ∧ notes.reduceOption = es

end Worker

/-- Whether a signal that is an answer is the one that the node gives.  No call breaks off. -/
def Replies.Gives (a : Replies) : WorkerPhase → WorkerSignal → Prop
  | .awaitingBlock job, .block answer => answer = a.block job.retry.attempt job.height
  | .awaitingResults job _, .results answer => answer = a.results job.retry.attempt job.height
  | _, .panic _ => False
  | _, _ => True

namespace Worker

/-- A range that is being fetched, from when it is taken up on; it is not any more once the
worker has come to an outcome, or if there are too many heights in it. -/
inductive Fetching (settings : Settings) (id : ℕ) (a : Replies) (r : ChunkRange) :
    List Turn → WorkerPhase → Prop
  /-- The range was claimed. -/
  | begun : Fetching settings id a r [] (takeUp settings r)
  /-- One more turn is taken. -/
  | turned {ts : List Turn} {phase next : WorkerPhase} {job : FetchJob} {s' : Shared}
      (hearlier : Fetching settings id a r ts phase) (s : Shared) (signal : WorkerSignal)
      (hjob : phase.job? = some job) (hgives : a.Gives phase signal)
      (hstep : step settings id s phase signal = some (next, s')) :
      Fetching settings id a r (ts ++ [⟨phase, s, s'⟩]) next

end Worker

/-- What a worker does in the turn that brings an outcome about. -/
def ChunkOutcome.Follows (r : ChunkRange) (t : Worker.Turn) (next : WorkerPhase) :
    ChunkOutcome → Prop
  | .fetched d => next = .submitting d .fresh ∧ t.after = t.before
  | .headReached m => next = .ready ∧ t.after = (t.before.observe (Height.prev m)).giveUp r
  | .failed attempts e => next = .ready ∧
      (∃ job, t.phase.job? = some job ∧ job.retry.attempt = attempts) ∧
      t.after = Shared.giveUp
        { t.before with telemetry := Worker.countFailure e t.before.telemetry } r
  | .cancelled => next = .exited .stopped ∧ t.before.isCancelled ∧ t.after = t.before.giveBack r

namespace Worker

/-- **The law of a range that is fetched**, with the failures of the attempts so far. -/
structure Classified (settings : Settings) (id : ℕ) (a : Replies) (r : ChunkRange)
    (ts : List Turn) (phase : WorkerPhase) (es : List Failure) : Prop where
  /-- So the first attempts failed, and none of them because a height is above the head. -/
  failed : a.Failed r es
  /-- The policy permits as many. -/
  permits : settings.retry.Permits es.length
  /-- Each failure was counted once. -/
  tallied : Tallied ts es
  /-- What was fetched always makes a chunk. -/
  not_failed : ∀ e, phase ≠ .exited (.failed e)
  /-- It is over soon. -/
  turns_le : ∀ n, settings.retry.attempts = some n → ts.length ≤ max 1 n * (2 * r.size + 1)
  /-- As long as it is not, the worker goes on. -/
  goesOn : ∀ job, phase.job? = some job → ∀ s, ∃ signal next s', a.Gives phase signal ∧
    step settings id s phase signal = some (next, s')
  /-- Once it is over, it is the outcome that the answers decide, unless the run was cancelled. -/
  ends : phase.job? = none → ∃ o t, ts.getLast? = some t ∧ o.Follows r t phase ∧
    (o ≠ .cancelled → ∀ es' o', a.Decides settings.retry r es' o' ↔ es' = es ∧ o' = o)

variable {settings : Settings} {id : ℕ} {a : Replies} {p : Retry.Policy} {r : ChunkRange}
  {s s' : Shared} {phase next : WorkerPhase} {signal : WorkerSignal} {job : FetchJob}
  {e : Failure} {es : List Failure} {ts : List Turn} {turns : ℕ}

/-! ### What a turn counts -/

theorem countFailure_of_timeout {method : String} (h : e.IsAbout (.timeout method))
    (t : Telemetry) : countFailure e t = t.fetchTimeout := by
  unfold countFailure
  rw [Failure.isAbout_iff.mp h]

theorem countFailure_of_not (h : ∀ method, ¬ e.IsAbout (.timeout method)) (t : Telemetry) :
    countFailure e t = t.fetchError := by
  unfold countFailure
  split
  · next method hmethod => exact absurd (Failure.isAbout_iff.mpr hmethod) (h method)
  · rfl

theorem fetchErrors_countFailure (e : Failure) (t : Telemetry) :
    (countFailure e t).fetchErrors = Counter.bump t.fetchErrors 1 := by
  unfold countFailure
  split <;> rfl

/-- A turn counts a failure whatever else it changes. -/
theorem counts_of_countFailure
    (herrors : s'.telemetry.fetchErrors = (countFailure e s.telemetry).fetchErrors)
    (htimeouts : s'.telemetry.fetchTimeouts = (countFailure e s.telemetry).fetchTimeouts) :
    Turn.Counts ⟨phase, s, s'⟩ (some e) := by
  refine ⟨herrors.trans (fetchErrors_countFailure e _), ?_, fun h => ?_⟩
  · rintro ⟨method, h⟩
    rw [htimeouts, countFailure_of_timeout h]
    rfl
  · rw [htimeouts, countFailure_of_not h]
    rfl

theorem Tallied.concat {t : Turn} {note : Option Failure} (h : Tallied ts es)
    (ht : t.Counts note) : Tallied (ts ++ [t]) (es ++ note.toList) := by
  obtain ⟨notes, hnotes, rfl⟩ := h
  refine ⟨notes ++ [note], List.rel_append hnotes (.cons ht .nil), ?_⟩
  rw [← List.concat_eq_append, List.reduceOption_concat]

/-! ### The invariant -/

/-- Where an attempt stands after these failures. -/
structure Attempting (a : Replies) (p : Retry.Policy) (r : ChunkRange) (es : List Failure)
    (job : FetchJob) : Prop where
  /-- It is an attempt at the range, -/
  range_eq : job.range = r
  /-- the one after those that failed, -/
  retry_eq : job.retry = .attemptAt p es.length
  /-- which the policy permits. -/
  permits : p.Permits (es.length + 1)
  /-- Those before have failed. -/
  failed : a.Failed r es
  /-- So far it got what was answered, -/
  got : a.Got r (es.length + 1) job.fetched
  /-- and some heights are left. -/
  length_lt : job.fetched.length < r.size

/-- Where a worker stands in a range after so many turns. -/
inductive Underway (a : Replies) (p : Retry.Policy) (r : ChunkRange) (es : List Failure)
    (turns : ℕ) : WorkerPhase → Prop
  /-- It has asked for a block. -/
  | asking {job : FetchJob} (hat : Attempting a p r es job)
      (hturns : turns ≤ es.length * (2 * r.size + 1) + 2 * job.fetched.length) :
      Underway a p r es turns (.awaitingBlock job)
  /-- It has the block that was answered. -/
  | hearing {job : FetchJob} {b : Block} (hat : Attempting a p r es job)
      (hblock : a.block (es.length + 1) job.height = .ok b) (hheight : b.height = job.height)
      (hturns : turns ≤ es.length * (2 * r.size + 1) + 2 * job.fetched.length + 1) :
      Underway a p r es turns (.awaitingResults job b)
  /-- It waits for the next attempt. -/
  | pausing {job : FetchJob} {length k : ℕ} (hrange : job.range = r)
      (hlength : es.length = k + 1) (hretry : job.retry = .attemptAt p k)
      (hpermits : p.Permits (es.length + 1)) (hfailed : a.Failed r es)
      (hturns : turns + 1 ≤ es.length * (2 * r.size + 1)) :
      Underway a p r es turns (.pausing job length)

/-- Whether a turn has brought about an outcome: the one that the answers decide, or the one of
a cancelled run. -/
def Over (a : Replies) (p : Retry.Policy) (r : ChunkRange) (es : List Failure) (t : Turn)
    (next : WorkerPhase) : Prop :=
  ∃ o : ChunkOutcome, o.Follows r t next ∧ (o ≠ .cancelled → a.Decides p r es o)

/-- Where a worker stands after a turn: in the range, or at its end. -/
def Reaches (a : Replies) (p : Retry.Policy) (r : ChunkRange) (es : List Failure) (turns : ℕ)
    (t : Turn) (next : WorkerPhase) : Prop :=
  a.Failed r es ∧ p.Permits es.length ∧ (Underway a p r es turns next ∨ Over a p r es t next)

namespace Attempting

theorem attempt_eq (h : Attempting a p r es job) : job.retry.attempt = es.length + 1 := by
  rw [h.retry_eq, Retry.attempt_attemptAt]

theorem height_eq (h : Attempting a p r es job) :
    job.height = r.first + job.fetched.length := by
  rw [FetchJob.height, h.range_eq]

/-- A height that is not fetched ends the attempt. -/
theorem attempt_eq_error (h : Attempting a p r es job)
    (he : a.fetch (es.length + 1) job.height = .error e) :
    a.attempt r (es.length + 1) = .error e := by
  rw [h.height_eq] at he
  exact h.got.attempt_eq_error h.length_lt he

theorem got_add {f : FetchedBlock} (h : Attempting a p r es job)
    (hf : a.fetch (es.length + 1) job.height = .ok f) :
    a.Got r (es.length + 1) (job.add f).fetched := by
  rw [h.height_eq] at hf
  exact h.got.add hf

/-- One more height is fetched, and others are left. -/
theorem add {f : FetchedBlock} (h : Attempting a p r es job)
    (hf : a.fetch (es.length + 1) job.height = .ok f) (hmore : ¬ (job.add f).isDone) :
    Attempting a p r es (job.add f) where
  range_eq := h.range_eq
  retry_eq := h.retry_eq
  permits := h.permits
  failed := h.failed
  got := h.got_add hf
  length_lt := by
    have hlt : (job.add f).fetched.length < (job.add f).range.size := by
      simpa [FetchJob.isDone] using hmore
    rwa [← h.range_eq]

/-- The last height is fetched. -/
theorem attempt_eq_ok {f : FetchedBlock} (h : Attempting a p r es job)
    (hf : a.fetch (es.length + 1) job.height = .ok f) (hdone : (job.add f).isDone) :
    a.attempt r (es.length + 1) = .ok (job.add f).fetched := by
  refine (h.got_add hf).attempt_eq_ok ?_
  have hle : r.size ≤ (job.add f).fetched.length := by
    rw [← h.range_eq]
    exact of_decide_eq_true hdone
  have hlength := job.length_add f
  have hlt := h.length_lt
  omega

end Attempting

namespace Underway

theorem failed (h : Underway a p r es turns phase) : a.Failed r es := by
  cases h with
  | asking hat | hearing hat => exact hat.failed
  | pausing hrange hlength hretry hpermits hfailed => exact hfailed

theorem permits (h : Underway a p r es turns phase) : p.Permits (es.length + 1) := by
  cases h with
  | asking hat | hearing hat => exact hat.permits
  | pausing hrange hlength hretry hpermits => exact hpermits

theorem range_eq (h : Underway a p r es turns phase) (hjob : phase.job? = some job) :
    job.range = r := by
  cases h with
  | asking hat | hearing hat =>
    cases hjob
    exact hat.range_eq
  | pausing hrange =>
    cases hjob
    exact hrange

/-- The attempt under way leaves room for another turn. -/
theorem turns_lt (h : Underway a p r es turns phase) :
    turns < (es.length + 1) * (2 * r.size + 1) := by
  rw [Nat.add_one_mul]
  cases h with
  | asking hat hturns | hearing hat hblock hheight hturns =>
    have hlt := hat.length_lt
    omega
  | pausing hrange hlength hretry hpermits hfailed hturns => omega

/-- The block that it gets is the one that was answered in this attempt. -/
theorem block_eq {answer : Except Failure Block} (h : Underway a p r es turns (.awaitingBlock job))
    (hgives : a.Gives (.awaitingBlock job) (.block answer)) :
    a.block (es.length + 1) job.height = answer := by
  cases h with
  | asking hat =>
    have hanswer : answer = a.block job.retry.attempt job.height := hgives
    rw [hanswer, hat.attempt_eq]

theorem results_eq {b : Block} {answer : Except Failure BlockResults}
    (h : Underway a p r es turns (.awaitingResults job b))
    (hgives : a.Gives (.awaitingResults job b) (.results answer)) :
    a.results (es.length + 1) job.height = answer := by
  cases h with
  | hearing hat =>
    have hanswer : answer = a.results job.retry.attempt job.height := hgives
    rw [hanswer, hat.attempt_eq]

/-- What the outcomes make of a height, once they are there. -/
theorem fetch_eq {b : Block} {results : BlockResults}
    (h : Underway a p r es turns (.awaitingResults job b))
    (hgives : a.Gives (.awaitingResults job b) (.results (.ok results))) :
    a.fetch (es.length + 1) job.height
      = (FetchedBlock.assemble b results).mapError .ofRpc := by
  have hresults := h.results_eq hgives
  cases h with
  | hearing hat hblock hheight => exact Replies.fetch_of_results hblock hheight hresults

/-- A failure that a worker meets ends the attempt in which it is, and leaves room for the pause
after it. -/
theorem of_fails (h : Underway a p r es turns phase) (hgives : a.Gives phase signal)
    (hfails : Fails phase signal job e) :
    Attempting a p r es job ∧ a.attempt r (es.length + 1) = .error e ∧
      turns + 2 ≤ (es.length + 1) * (2 * r.size + 1) := by
  rw [Nat.add_one_mul]
  cases hfails with
  | noBlock =>
    have hblock := h.block_eq hgives
    cases h with
    | asking hat hturns =>
      have hlt := hat.length_lt
      exact ⟨hat, hat.attempt_eq_error (Replies.fetch_of_block_error hblock), by omega⟩
  | otherBlock hheight =>
    have hblock := h.block_eq hgives
    cases h with
    | asking hat hturns =>
      have hlt := hat.length_lt
      exact ⟨hat, hat.attempt_eq_error (Replies.fetch_of_height_ne hblock hheight), by omega⟩
  | noResults =>
    have hresults := h.results_eq hgives
    cases h with
    | hearing hat hblock hheight hturns =>
      have hfetch := Replies.fetch_of_results_error hblock hheight hresults
      have hlt := hat.length_lt
      exact ⟨hat, hat.attempt_eq_error hfetch, by omega⟩
  | otherResults hassemble =>
    have hfetch := h.fetch_eq hgives
    rw [hassemble] at hfetch
    cases h with
    | hearing hat hblock hheight hturns =>
      have hlt := hat.length_lt
      exact ⟨hat, hat.attempt_eq_error hfetch, by omega⟩

end Underway

/-! ### Every turn keeps the invariant -/

/-- A turn that counts nothing. -/
theorem Reaches.quiet {t : Turn} (h : Reaches a p r es turns t next) (ht : t.Counts none) :
    ∃ note, t.Counts note ∧ Reaches a p r (es ++ note.toList) turns t next :=
  ⟨none, ht, by rwa [Option.toList_none, List.append_nil]⟩

/-- An attempt has failed, and another one follows after a pause. -/
theorem reaches_paused {length : ℕ} (h : Underway a p r es turns phase)
    (hgives : a.Gives phase signal) (hfails : Fails phase signal job e)
    (hmissing : missing? e = none) (hjudge : job.retry.judge false = .pause length) (t : Turn) :
    Reaches a p r (es ++ [e]) (turns + 1) t (.pausing job length) := by
  obtain ⟨hat, hattempt, hturns⟩ := h.of_fails hgives hfails
  have hfailed := hat.failed.concat hattempt (missing?_eq_none_iff.mp hmissing)
  have hlength : (es ++ [e]).length = es.length + 1 := List.length_append
  have hpermits : p.Permits (es.length + 2) := Retry.permits_of_pause (hat.retry_eq ▸ hjudge)
  rw [← hlength] at hturns
  exact ⟨hfailed, hlength ▸ hat.permits,
    Or.inl (.pausing hat.range_eq hlength hat.retry_eq (hlength ▸ hpermits) hfailed hturns)⟩

/-- The last attempt has failed. -/
theorem reaches_gaveUp (h : Underway a p r es turns phase) (hgives : a.Gives phase signal)
    (hfails : Fails phase signal job e) (hmissing : missing? e = none)
    (hlast : job.retry.isLast) :
    Reaches a p r (es ++ [e]) (turns + 1) ⟨phase, s, Shared.giveUp
      { s with telemetry := countFailure e s.telemetry } job.range⟩ .ready := by
  obtain ⟨hat, hattempt, -⟩ := h.of_fails hgives hfails
  have hfailed := hat.failed.concat hattempt (missing?_eq_none_iff.mp hmissing)
  have hlength : (es ++ [e]).length = es.length + 1 := List.length_append
  have hmore : ¬ p.Permits (es.length + 2) :=
    Retry.isLast_attemptAt.mp (hat.retry_eq ▸ hlast)
  obtain ⟨n, hceiling, hspent⟩ := hat.permits.exists_eq_max hmore
  refine ⟨hfailed, hlength ▸ hat.permits, Or.inr ⟨.failed (max 1 n) e, ⟨rfl, ?_, ?_⟩, fun _ => ?_⟩⟩
  · exact ⟨job, hfails.job?_eq, hat.attempt_eq.trans hspent⟩
  · rw [hat.range_eq]
  · exact .failed hfailed hceiling (hlength.trans hspent) List.getLast?_concat

/-- An attempt has met a height above the node's head. -/
theorem reaches_behind {m : ℕ} (h : Underway a p r es turns phase)
    (hgives : a.Gives phase signal) (hfails : Fails phase signal job e)
    (hmissing : missing? e = some m) :
    Reaches a p r es (turns + 1) ⟨phase, s, (s.observe (Height.prev m)).giveUp job.range⟩
      .ready := by
  obtain ⟨hat, hattempt, -⟩ := h.of_fails hgives hfails
  refine ⟨hat.failed, hat.permits.of_succ, Or.inr ⟨.headReached m, ⟨rfl, ?_⟩, fun _ => ?_⟩⟩
  · rw [hat.range_eq]
  · exact .headReached hat.failed hat.permits hattempt (missing?_eq_some_iff.mp hmissing)

/-- **Every turn keeps the invariant**, or ends the range in the way that the answers decide. -/
theorem reaches_step (h : Underway a p r es turns phase) (hfits : phase.Fits)
    (hgives : a.Gives phase signal) (hstep : Step settings id s phase signal next s') :
    ∃ note, Turn.Counts ⟨phase, s, s'⟩ note ∧
      Reaches a p r (es ++ note.toList) (turns + 1) ⟨phase, s, s'⟩ next := by
  have hnext := fits_step hstep hfits
  cases hstep with
  | received hheight =>
    have hblock := h.block_eq hgives
    cases h with
    | asking hat hturns =>
      refine Reaches.quiet ⟨hat.failed, hat.permits.of_succ, Or.inl ?_⟩ ⟨rfl, rfl⟩
      exact .hearing hat hblock hheight (Nat.succ_le_succ hturns)
  | @fetched job b results f hassemble hmore =>
    have hfetch := h.fetch_eq hgives
    rw [hassemble] at hfetch
    cases h with
    | hearing hat hblock hheight hturns =>
      have hlength := job.length_add f
      refine Reaches.quiet ⟨hat.failed, hat.permits.of_succ, Or.inl ?_⟩ ⟨rfl, rfl⟩
      exact .asking (hat.add hfetch hmore) (by omega)
  | @completed job b results f d hassemble hdone hmake =>
    have hfetch := h.fetch_eq hgives
    rw [hassemble] at hfetch
    obtain ⟨hrange, hblocks⟩ := CompletedChunk.range_of_make hmake
    cases h with
    | hearing hat =>
      have hserves := Replies.attempt_eq_ok_iff.mp (hat.attempt_eq_ok hfetch hdone)
      rw [← hblocks] at hserves
      refine Reaches.quiet ⟨hat.failed, hat.permits.of_succ, Or.inr ?_⟩ ⟨rfl, rfl⟩
      exact ⟨.fetched d, ⟨rfl, rfl⟩,
        fun _ => .fetched hat.failed hat.permits (hrange.trans hat.range_eq) hserves⟩
  | misfit => exact hnext.elim
  | paused hfails hmissing hjudge =>
    exact ⟨some _, counts_of_countFailure rfl rfl, reaches_paused h hgives hfails hmissing hjudge _⟩
  | gaveUp hfails hmissing hlast =>
    exact ⟨some _, counts_of_countFailure (Shared.fetchErrors_giveUp _ _)
      (Shared.fetchTimeouts_giveUp _ _), reaches_gaveUp h hgives hfails hmissing hlast⟩
  | behind hfails hmissing =>
    exact (reaches_behind h hgives hfails hmissing).quiet
      ⟨Shared.fetchErrors_giveUp _ _, Shared.fetchTimeouts_giveUp _ _⟩
  | @retried job length hrun =>
    cases h with
    | pausing hrange hlength hretry hpermits hfailed hturns =>
      refine Reaches.quiet ⟨hfailed, hpermits.of_succ, Or.inl (.asking ?_ hturns)⟩ ⟨rfl, rfl⟩
      have hagain : job.again.retry = .attemptAt p es.length := by
        rw [hlength]
        exact congrArg Retry.again hretry
      exact ⟨hrange, hagain, hpermits, hfailed, a.got_nil r _, Nat.succ_pos _⟩
  | abandoned hjob hcancel =>
    refine Reaches.quiet ⟨h.failed, h.permits.of_succ, Or.inr ?_⟩ ⟨rfl, rfl⟩
    exact ⟨.cancelled, ⟨rfl, hcancel, by rw [h.range_eq hjob]⟩, fun hne => absurd rfl hne⟩
  | panicked hcalling =>
    rcases hcalling with rfl | ⟨b, rfl⟩ <;> exact hgives.elim
  -- without a range, or with a chunk, it is not under way
  | stopped hphase => rcases hphase with ⟨rfl, -⟩ | ⟨rfl, -⟩ <;> cases h
  | claimed | overflowed | rested | rose | listened | admitted | dropped | refused | told
  | withdrew => cases h

/-! ### Whole ranges -/

theorem Underway.job?_ne_none (h : Underway a p r es turns phase) : phase.job? ≠ none := by
  cases h <;> nofun

theorem Over.job?_eq_none {t : Turn} (h : Over a p r es t next) : next.job? = none := by
  obtain ⟨o, hfollows, -⟩ := h
  cases o with
  | fetched | headReached | failed | cancelled =>
    rw [hfollows.1]
    rfl

theorem underway_start (p : Retry.Policy) :
    Underway a p r [] 0 (.awaitingBlock (.start p r)) := by
  refine .asking ?_ (Nat.zero_le _)
  exact ⟨rfl, rfl, p.permits_one, a.failed_nil r, a.got_nil r 1, Nat.succ_pos _⟩

/-- A range of too many heights takes no turn. -/
theorem overflow_of_fetching (h : Fetching settings id a r ts phase)
    (hsize : FetchJob.mostHeights < r.size) :
    ts = [] ∧ phase = .exited (.panicked "capacity overflow") := by
  induction h with
  | begun => exact ⟨rfl, takeUp_of_lt hsize⟩
  | turned hearlier s signal hjob hgives hstep ih =>
    rw [ih.2] at hjob
    cases hjob

theorem fits_of_fetching (h : Fetching settings id a r ts phase)
    (hsize : r.size ≤ FetchJob.mostHeights) : phase.Fits := by
  induction h with
  | begun =>
    rw [takeUp_of_le hsize]
    exact FetchJob.fits_start _ _
  | turned hearlier s signal hjob hgives hstep ih => exact fits_step (step_cases hstep) ih

/-- A range is under way, or it is over by its last turn. -/
theorem tracked_of_fetching (h : Fetching settings id a r ts phase)
    (hsize : r.size ≤ FetchJob.mostHeights) :
    ∃ es, Tallied ts es ∧ a.Failed r es ∧ settings.retry.Permits es.length ∧
      (Underway a settings.retry r es ts.length phase ∨
        ∃ t, ts.getLast? = some t ∧ Over a settings.retry r es t phase) := by
  induction h with
  | begun =>
    have hstart := underway_start (a := a) (r := r) settings.retry
    rw [takeUp_of_le hsize]
    exact ⟨[], ⟨[], .nil, rfl⟩, hstart.failed, hstart.permits.of_succ, Or.inl hstart⟩
  | @turned ts phase next job s' hearlier s signal hjob hgives hstep ih =>
    obtain ⟨es, htallied, -, -, hunder | ⟨t, -, hover⟩⟩ := ih
    · obtain ⟨note, hcounts, hfailed, hpermits, hreached⟩ :=
        reaches_step hunder (fits_of_fetching hearlier hsize) hgives (step_cases hstep)
      refine ⟨es ++ note.toList, htallied.concat hcounts, hfailed, hpermits, ?_⟩
      rw [List.length_append]
      exact hreached.imp_right fun hover => ⟨_, List.getLast?_concat, hover⟩
    · -- a range that is over takes no further turn
      rw [hover.job?_eq_none] at hjob
      cases hjob

/-- **A range takes a bounded number of turns.** -/
theorem turns_le {n : ℕ} (h : Fetching settings id a r ts phase)
    (hsize : r.size ≤ FetchJob.mostHeights) (hn : settings.retry.attempts = some n) :
    ts.length ≤ max 1 n * (2 * r.size + 1) := by
  cases h with
  | begun => exact Nat.zero_le _
  | @turned ts phase next job s' hearlier s signal hjob =>
    obtain ⟨es, -, -, -, hunder | ⟨t, -, hover⟩⟩ := tracked_of_fetching hearlier hsize
    · rw [List.length_append, List.length_singleton]
      calc ts.length + 1 ≤ (es.length + 1) * (2 * r.size + 1) := hunder.turns_lt
        _ ≤ max 1 n * (2 * r.size + 1) := Nat.mul_le_mul_right _ (hunder.permits n hn)
    · rw [hover.job?_eq_none] at hjob
      cases hjob

/-- Whatever is shared, a worker with a range goes on as soon as the node answers or its pause is
over. -/
theorem goesOn_of_job? (settings : Settings) (id : ℕ) (a : Replies)
    (hjob : phase.job? = some job) (s : Shared) : ∃ signal next s', a.Gives phase signal ∧
      step settings id s phase signal = some (next, s') := by
  cases phase with
  | awaitingBlock job =>
    refine ⟨.block (a.block job.retry.attempt job.height), ?_⟩
    rcases hanswer : a.block job.retry.attempt job.height with e | b
    · exact ⟨_, _, hanswer.symm, rfl⟩
    · exact ⟨_, _, hanswer.symm, rfl⟩
  | awaitingResults job b =>
    refine ⟨.results (a.results job.retry.attempt job.height), ?_⟩
    rcases hanswer : a.results job.retry.attempt job.height with e | results
    · exact ⟨_, _, hanswer.symm, rfl⟩
    · exact ⟨_, _, hanswer.symm, rfl⟩
  | pausing job length => exact ⟨.elapsed, _, _, trivial, rfl⟩
  | ready | idle | submitting | exited => cases hjob

theorem exists_classified (h : Fetching settings id a r ts phase)
    (hsize : r.size ≤ FetchJob.mostHeights) : ∃ es, Classified settings id a r ts phase es := by
  obtain ⟨es, htallied, hfailed, hpermits, hreached⟩ := tracked_of_fetching h hsize
  refine ⟨es, hfailed, hpermits, htallied, ?_, fun n => turns_le h hsize,
    fun job hjob => goesOn_of_job? settings id a hjob, fun hended => ?_⟩
  · rintro e rfl
    exact fits_of_fetching h hsize
  · rcases hreached with hunder | ⟨t, hlast, o, hfollows, hdecides⟩
    · exact absurd hended hunder.job?_ne_none
    · refine ⟨o, t, hlast, hfollows, fun hne es' o' => ⟨fun h' => ?_, ?_⟩⟩
      · exact h'.unique (hdecides hne)
      · rintro ⟨rfl, rfl⟩
        exact hdecides hne

/-- **The law holds of every range that a list has room for.**  For a larger one the worker breaks
off before it asks for anything. -/
theorem classified_of_fetching (h : Fetching settings id a r ts phase) :
    (r.size ≤ FetchJob.mostHeights → ∃ es, Classified settings id a r ts phase es) ∧
      (FetchJob.mostHeights < r.size →
        ts = [] ∧ phase = .exited (.panicked "capacity overflow")) :=
  ⟨exists_classified h, overflow_of_fetching h⟩

/-- In the first attempt at two heights the node is too slow about the second one; in the next
attempt it says that this height is above its head. -/
theorem classified_of_fetching_behind :
    let settings : Settings := ⟨⟨100, 500, some 3⟩, 1000⟩
    let r : ChunkRange := ⟨5, 6, by decide⟩
    let slow : Failure := (Failure.ofRpc (.timeout "block_results")).context "height 6"
    let ahead : Failure := (Failure.ofRpc (.heightNotFound 6)).context "height 6"
    let b (h : ℕ) : Block := ⟨h, "", "", "", [], .null⟩
    let a : Replies := ⟨fun k h => if k = 2 ∧ h = 6 then .error ahead else .ok (b h),
      fun _ h => if h = 6 then .error slow else .ok ⟨h, []⟩⟩
    ∃ ts, Fetching settings 0 a r ts .ready ∧ ts.length = 8 ∧
      Classified settings 0 a r ts .ready [slow] ∧
      a.Decides settings.retry r [slow] (.headReached 6) := by
  intro settings r slow ahead b a
  let s : Shared :=
    { store := .empty, publisher := .start 1 Nat.one_pos, progress := .ofHeight? none
      telemetry := {}, planner := .start 4 2 Nat.two_pos, shutdown := {}
      buffer := .start 5 1 Nat.one_pos }
  have hsize : r.size ≤ FetchJob.mostHeights := by decide
  have h₀ : Fetching settings 0 a r [] (.awaitingBlock (.start settings.retry r)) :=
    takeUp_of_le hsize ▸ .begun
  have h₁ := h₀.turned s (.block (.ok (b 5))) rfl rfl rfl
  have h₂ := h₁.turned s (.results (.ok ⟨5, []⟩)) rfl rfl rfl
  have h₃ := h₂.turned s (.block (.ok (b 6))) rfl rfl rfl
  have h₄ := h₃.turned s (.results (.error slow)) rfl rfl rfl
  have h₅ := h₄.turned s .elapsed rfl trivial rfl
  have h₆ := h₅.turned s (.block (.ok (b 5))) rfl rfl rfl
  have h₇ := h₆.turned s (.results (.ok ⟨5, []⟩)) rfl rfl rfl
  have h₈ := h₇.turned s (.block (.error ahead)) rfl rfl rfl
  obtain ⟨es, hclassified⟩ := (classified_of_fetching h₈).1 hsize
  have hfailed : a.Failed r [slow] :=
    (a.failed_nil r).concat rfl (missing?_eq_none_iff.mp rfl)
  have hpermits : settings.retry.Permits 2 := by
    intro n hn
    cases hn
    decide
  have hbehind : a.Decides settings.retry r [slow] (.headReached 6) :=
    .headReached hfailed hpermits rfl (missing?_eq_some_iff.mp rfl)
  obtain ⟨o, t, hlast, hfollows, hdecided⟩ := hclassified.ends rfl
  cases hlast
  have hrun : o ≠ .cancelled := by
    rintro rfl
    exact absurd hfollows.2.1 (by decide)
  obtain ⟨rfl, -⟩ := (hdecided hrun _ _).mp hbehind
  exact ⟨_, h₈, rfl, hclassified, hbehind⟩

/-- There is no list with room for so many heights.  The node would say that it does not even have
the lowest one of them, but it is never asked. -/
theorem not_classified_of_overflow :
    let settings : Settings := ⟨⟨10, 40, some 1⟩, 50⟩
    let r : ChunkRange := ⟨1, 100000000000000000, by decide⟩
    let a : Replies := ⟨fun _ h => .error (.ofRpc (.heightNotFound h)), fun _ h => .ok ⟨h, []⟩⟩
    let broken : WorkerPhase := .exited (.panicked "capacity overflow")
    Fetching settings 0 a r [] broken ∧ a.Decides settings.retry r [] (.headReached 1) ∧
      ¬ ∃ es, Classified settings 0 a r [] broken es := by
  intro settings r a broken
  refine ⟨?_, ?_, ?_⟩
  · have hbroken : takeUp settings r = broken := takeUp_of_lt (by decide)
    exact hbroken ▸ .begun
  · have hattempt : a.attempt r 1 = .error (.ofRpc (.heightNotFound 1)) :=
      (a.got_nil r 1).attempt_eq_error (by decide) rfl
    exact .headReached (a.failed_nil r) settings.retry.permits_one hattempt
      (missing?_eq_some_iff.mp rfl)
  · -- a worker that has ended has not ended by a turn
    rintro ⟨es, hclassified⟩
    obtain ⟨o, t, hlast, -⟩ := hclassified.ends rfl
    cases hlast

end Worker
end BlockIngest
