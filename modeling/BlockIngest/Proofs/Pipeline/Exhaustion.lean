import BlockIngest.Proofs.Commit.Trace
import BlockIngest.Proofs.Pipeline.InStep
import BlockIngest.Proofs.Pipeline.Outward
import Mathlib.Data.Nat.ModEq

/-!
# A height that cannot be stored

The sequencer gives a height up once all attempts at it have failed.  Attempts may fail
at different writes and for different reasons; what is reported is the last of them.
The failure says, from the outside in, which part of the pipeline gave up, at which
height, write and attempt, and then whatever the store has said, unchanged.

Nothing is assumed about the other tasks but that they leave alone what only the
sequencer touches, and that nobody tells the run to end before it does.  That is how
the sequencer fares in every run of the pipeline (`World.course_of_launch`).

## Main definitions

* `failures` — how many writes have failed.
* `Shared.Undisturbed`, `Sequencer.Course` — a run of the sequencer among other tasks.
* `Sequencer.Course.Stage`, `Sequencer.Course.Kept` — the invariant.
* `Sequencer.Abandoned` — the law.

## Main results

* `Sequencer.Course.Kept.step` — **every step keeps the invariant.**
* `Sequencer.abandoned_of_course` — **a height that cannot be stored ends the run, and
  is named.**
-/

namespace BlockIngest

/-! ### Writes that fail -/

/-- Whether an effect is a write that failed. -/
def Effect.failed : Effect → Bool
  | .wrote _ (.error _) => true
  | _ => false

/-- How many writes have failed. -/
def failures (es : List Effect) : ℕ := es.countP Effect.failed

@[simp] theorem failures_nil : failures [] = 0 := rfl

@[simp] theorem failures_append (es ds : List Effect) :
    failures (es ++ ds) = failures es + failures ds :=
  List.countP_append

@[simp] theorem failures_stored (ws : List Write) : failures (stored ws) = 0 := by
  simp [failures, stored, Effect.failed]

@[simp] theorem failures_closing (f : FetchedBlock) : failures f.closing = 0 := by
  simp [failures, FetchedBlock.closing, Effect.failed]

@[simp] theorem failures_failed (w : Write) (e : Failure) : failures [.wrote w (.error e)] = 1 :=
  rfl

namespace Attempts

variable {f : FetchedBlock} {k : ℕ} {es : List Effect}

/-- Every attempt that failed has one write that failed. -/
theorem failures_eq (h : Attempts f k es) : failures es = k := by
  induction h with
  | none => rfl
  | fail hearlier hwrites ih =>
    rw [failures_append, failures_append, failures_stored, failures_failed, ih, Nat.zero_add]

/-- Of blocks, they write none but that of their height. -/
theorem block_eq (h : Attempts f k es) {b : Block} {outcome : Except Failure Unit}
    (hb : .wrote (.block b) outcome ∈ es) : b = f.block := by
  have hwrite : ∀ w ∈ f.writes, ∀ b, w = .block b → b = f.block :=
    fun w hw b hb => FetchedBlock.block_mem_writes.mp (hb ▸ hw)
  induction h with
  | none => cases hb
  | @fail k es done rest w e hearlier hwrites ih =>
    rw [hwrites] at hwrite
    simp only [List.mem_append, stored, List.mem_map, List.mem_singleton] at hb
    rcases hb with hb | ⟨v, hv, hvb⟩ | hb
    · exact ih hb
    · cases hvb
      exact hwrite _ (List.mem_append_left _ hv) b rfl
    · cases hb
      exact hwrite _ (List.mem_append_right _ List.mem_cons_self) b rfl

/-- Each of them begins with that block. -/
theorem exists_block (h : Attempts f (k + 1) es) :
    ∃ outcome, .wrote (.block f.block) outcome ∈ es := by
  cases h with
  | @fail k es done rest w e hearlier hwrites =>
    cases done with
    | nil =>
      cases (List.cons.inj hwrites).1
      exact ⟨.error e, by simp⟩
    | cons v done =>
      cases (List.cons.inj hwrites).1
      exact ⟨.ok (), by simp [stored]⟩

end Attempts

theorem FetchedBlock.exists_closing_eq (f : FetchedBlock) :
    ∃ es e, f.closing = es ++ [.published e] := by
  have hne : f.events ≠ [] := List.cons_ne_nil _ _
  refine ⟨.marked f.height :: f.events.dropLast.map .published, f.events.getLast hne, ?_⟩
  rw [closing, List.cons_append, ← List.map_singleton, ← List.map_append,
    List.dropLast_append_getLast hne]

/-- Once a height is committed, an event is the last that was done. -/
theorem Commits.exists_append {p : Retry.Policy} {fs : List FetchedBlock} {t : List Effect}
    (h : Commits p fs t) : t = [] ∨ ∃ es e, t = es ++ [.published e] := by
  cases h with
  | nil => exact Or.inl rfl
  | @snoc f fs k es t hearlier hattempts hpermits =>
    obtain ⟨ds, e, hclosing⟩ := f.exists_closing_eq
    exact Or.inr ⟨t ++ (es ++ (stored f.writes ++ ds)), e, by simp [hclosing]⟩

/-- Writes at the end of what was done follow on all heights that were committed. -/
theorem Commits.split {p : Retry.Policy} {fs : List FetchedBlock} {t ds u es : List Effect}
    (h : Commits p fs t) (hes : OnlyWrites es) (heq : t ++ ds = u ++ es) :
    ∃ vs, u = t ++ vs ∧ ds = vs ++ es := by
  rcases List.append_eq_append_iff.mp heq with ⟨vs, hu, hds⟩ | ⟨vs, ht, hes'⟩
  · exact ⟨vs, hu, hds⟩
  · rcases List.eq_nil_or_concat vs with rfl | ⟨vs, x, rfl⟩
    · exact ⟨[], by simpa using ht.symm, by simpa using hes'.symm⟩
    · -- what was done last about a committed height is an event, and not a write
      rcases h.exists_append with rfl | ⟨t, e, rfl⟩
      · simp at ht
      · rw [List.concat_eq_append, ← List.append_assoc] at ht
        obtain ⟨w, outcome, hx⟩ := hes x (by simp [hes'])
        rw [hx] at ht
        cases List.singleton_inj.mp (List.append_inj_right' ht rfl)

/-- A chunk ends with its range. -/
theorem CompletedChunk.height_le_last (d : CompletedChunk) {f : FetchedBlock} (hf : f ∈ d.blocks) :
    f.height ≤ d.range.last := by
  have hmem : f.height ∈ d.range.heights := by
    rw [← d.heights_eq]
    exact List.mem_map_of_mem hf
  exact (ChunkRange.mem_heights.mp hmem).2

/-! ### The sequencer among other tasks -/

/-- What tasks share before and after others were at work: they do not touch what the
sequencer alone is in charge of, nor tell the run to end. -/
structure Shared.Undisturbed (s s' : Shared) : Prop where
  progress_eq : s'.progress = s.progress
  retries_eq : s'.telemetry.storageRetries = s.telemetry.storageRetries
  shutdown_eq : s'.shutdown = s.shutdown

namespace Sequencer

variable {p : Retry.Policy} {n m : ℕ} {s₀ s s' : Shared} {q q' : Sequencer}
  {signal : SequencerSignal} {fed : List CompletedChunk} {trace t es : List Effect}

/-- A run of the sequencer among other tasks: the chunks that it took out of the buffer,
what it did, where it stands, and what tasks share. -/
inductive Course (p : Retry.Policy) (n : ℕ) (s₀ : Shared) :
    List CompletedChunk → List Effect → Sequencer → Shared → Prop where
  /-- It has not begun. -/
  | start : Course p n s₀ [] [] (.start p n) s₀
  /-- Others are at work. -/
  | others {fed : List CompletedChunk} {trace : List Effect} {q : Sequencer} {s s' : Shared}
      (hcourse : Course p n s₀ fed trace q s) (hothers : s.Undisturbed s') :
      Course p n s₀ fed trace q s'
  /-- It takes one more step. -/
  | step {fed : List CompletedChunk} {trace : List Effect} {q q' : Sequencer} {s s' : Shared}
      {signal : SequencerSignal} (hcourse : Course p n s₀ fed trace q s)
      (hstep : q.step s signal = some (q', s')) :
      Course p n s₀ (fed ++ q.taken s signal) (trace ++ q.effects signal) q' s'

/-- The heights in hand follow one another from the one that is committed next, up to
the top at most. -/
def Lined (q : Sequencer) : Prop :=
  ∀ fs, q.phase.inHand? = some fs →
    Consecutive q.nextCommit fs ∧ ∀ f ∈ fs, f.height ≤ Height.top

/-- The failure with which a height is given up: the write `w` failed in the last of
`attempts` attempts, and the store said `e`. -/
def abandonment (height attempts : ℕ) (w : Write) (e : Failure) : Capture where
  origin := .storage height
  failure := (e.under (.write w.op)).under (.storage ⟨w.op, height, attempts⟩)

/-- How far a run of the sequencer has come. -/
inductive Course.Stage (p : Retry.Policy) (s₀ : Shared) (trace : List Effect) (q : Sequencer)
    (s : Shared) : Prop
  /-- It is at work: it has told nobody to end, and counted all writes that failed. -/
  | working (hworking : q.phase.Working) (hshutdown : s.shutdown = s₀.shutdown)
      (hretries : s.telemetry.storageRetries
        ≡ s₀.telemetry.storageRetries + failures trace [MOD 2 ^ 64])
  /-- It has broken off between two heights. -/
  | brokeOff {done : List FetchedBlock} {result : Except Failure Unit}
      (hphase : q.phase = .exited result) (hcommits : Commits p done trace)
  /-- It has given a height up. -/
  | gaveUp {done : List FetchedBlock} {f : FetchedBlock} {k : ℕ} {t es : List Effect} {w : Write}
      {e : Failure} (hcommits : Commits p done t)
      (htrace : trace = t ++ (es ++ [.wrote w (.error e)]))
      (hattempts : Attempts f (k + 1) (es ++ [.wrote w (.error e)]))
      (hlast : ∀ m, p.attempts = some m → k + 1 = max 1 m)
      (hheight : f.height = q.nextCommit)
      (hphase : q.phase = .exited (.error (abandonment f.height (k + 1) w e).error))
      (hshutdown : s.shutdown = ⟨true, true, some (abandonment f.height (k + 1) w e)⟩)
      (hretries : s.telemetry.storageRetries
        ≡ s₀.telemetry.storageRetries + failures t + k [MOD 2 ^ 64])

/-- What is known of a run of the sequencer among other tasks. -/
structure Course.Kept (p : Retry.Policy) (n : ℕ) (s₀ : Shared) (fs : List FetchedBlock)
    (trace : List Effect) (q : Sequencer) (s : Shared) : Prop where
  /-- What it was fed is committed or left. -/
  tracked : Tracked p fs trace q
  /-- What is left in hand begins at the height that is committed next. -/
  lined : q.Lined
  /-- That is the one above the last committed height. -/
  next_eq : q.nextCommit = ((marks trace).getLast?.map Height.next).getD n
  /-- The last committed height is known to everyone. -/
  progress_eq : s.progress = ((marks trace).getLast?.map Progress.mk).getD s₀.progress
  /-- How far it has come. -/
  stage : Stage p s₀ trace q s

namespace Lined

/-- What is in hand does not change. -/
theorem same (h : q.Lined) (hnext : q'.nextCommit = q.nextCommit)
    (hphase : q'.phase.inHand? = q.phase.inHand? ∨ q'.phase.inHand? = none) : q'.Lined := by
  intro fs hfs
  rw [hnext]
  rcases hphase with hsame | hnone
  · exact h fs (hsame ▸ hfs)
  · rw [hnone] at hfs
    cases hfs

theorem height_eq (h : q.Lined) {job : CommitJob} {w : Write} {later : List TxResult}
    (hpending : q.phase.pending? = some (job, w, later)) : job.current.height = q.nextCommit :=
  (consecutive_cons.mp (h _ (inHand?_of_pending hpending)).1).1

/-- A chunk is in hand. -/
theorem take {d : CompletedChunk} (hfirst : d.range.first = q.nextCommit)
    (hlast : d.range.last ≤ Height.top) (s : Shared) : (q.beginHeight s d.blocks).Lined := by
  intro fs hfs
  cases inHand?_beginHeight hfs
  rw [nextCommit_beginHeight]
  exact ⟨hfirst ▸ d.consecutive_blocks, fun f hf => (d.height_le_last hf).trans hlast⟩

/-- The first height in hand is committed. -/
theorem store (h : q.Lined) {job : CommitJob} {w : Write}
    (hpending : q.phase.pending? = some (job, w, [])) (s : Shared) :
    (q.heightStored s job).1.Lined := by
  intro fs hfs
  cases inHand?_beginHeight hfs
  have hnext : (q.heightStored s job).1.nextCommit = Height.next job.current.height :=
    nextCommit_beginHeight _ _ _
  obtain ⟨hheights, htop⟩ := h _ (inHand?_of_pending hpending)
  obtain ⟨hfirst, hlater⟩ := consecutive_cons.mp hheights
  refine ⟨?_, fun f hf => htop f (List.mem_cons_of_mem _ hf)⟩
  rw [hnext]
  rcases hlist : job.later with _ | ⟨f, later⟩
  · rfl
  · -- another height follows, so this one is not the top
    rw [hlist] at hlater htop
    have hf := (consecutive_cons.mp hlater).1
    have hle := htop f (by simp)
    rw [Height.next_of_lt (by omega), hfirst]
    exact hlater

end Lined

theorem lined_step (h : q.Lined) (hstep : Step q s signal q' s')
    (hfed : ∀ d ∈ q.taken s signal, d.range.last ≤ Height.top) : q'.Lined := by
  cases hstep with
  | listened hphase | missed hphase | woke hphase | retried hphase =>
    exact h.same rfl (Or.inl (by rw [hphase]; rfl))
  | took hphase hrun htake hfirst =>
    rw [taken_of_take hphase htake] at hfed
    exact .take hfirst (hfed _ (List.mem_singleton.mpr rfl)) s
  | brokeOff | left | gaveUp | stopped | ended => exact h.same rfl (Or.inr rfl)
  | wrote hpending | paused hpending =>
    exact h.same rfl (Or.inl (inHand?_of_pending hpending).symm)
  | stored hpending => exact h.store hpending _

/-- A step commits nothing, or a height that is marked from then on. -/
theorem marks_step (hstep : Step q s signal q' s') :
    (marks (q.effects signal) = [] ∧ q'.nextCommit = q.nextCommit ∧ s'.progress = s.progress) ∨
      ∃ h, marks (q.effects signal) = [h] ∧ q'.nextCommit = Height.next h ∧ s'.progress = ⟨h⟩ := by
  cases hstep with
  | listened hphase | brokeOff hphase | missed hphase | woke hphase | left hphase
  | stopped hphase | retried hphase | ended hphase =>
    rw [effects_eq_nil (by rw [hphase]; rfl)]
    exact Or.inl ⟨rfl, rfl, rfl⟩
  | took hphase =>
    rw [effects_eq_nil (by rw [hphase]; rfl)]
    exact Or.inl ⟨rfl, nextCommit_beginHeight _ _ _, rfl⟩
  | wrote hpending =>
    rw [effects_wrote hpending]
    exact Or.inl ⟨rfl, rfl, rfl⟩
  | @stored job w hpending =>
    rw [effects_stored hpending]
    exact Or.inr ⟨job.current.height, marks_closing _, nextCommit_beginHeight _ _ _, rfl⟩
  | paused hpending | gaveUp hpending =>
    rw [effects_failed hpending]
    exact Or.inl ⟨rfl, rfl, rfl⟩

/-- An ended sequencer does nothing more. -/
theorem step_eq_none {result : Except Failure Unit} (hphase : q.phase = .exited result) (s : Shared)
    (signal : SequencerSignal) : q.step s signal = none := by
  unfold step
  rw [hphase]

/-- A failure names the write that it came from. -/
theorem writeOf_under (e : Failure) (op : StorageOp) : writeOf (e.under (.write op)) = op := rfl

namespace Course

variable {fs : List FetchedBlock}

/-- A height is given up after the last attempt at it. -/
theorem stage_gaveUp (htracked : Tracked p fs trace q) (hlined : q.Lined)
    (hnone : s.shutdown.fatal = none)
    (hretries : s.telemetry.storageRetries
      ≡ s₀.telemetry.storageRetries + failures trace [MOD 2 ^ 64])
    {job : CommitJob} {w : Write} {later : List TxResult} {e failure : Failure}
    {error : StorageError} (hpending : q.phase.pending? = some (job, w, later))
    (hlast : job.retry.isLast) (hfailure : failure = e.under (.write w.op))
    (herror : error = ⟨writeOf failure, job.current.height, job.retry.attempt⟩) :
    Stage p s₀ (trace ++ q.effects (.written (.error e)))
      (q.goTo (.exited (.error (s.shutdown.storageFailed error failure).1)))
      { s with shutdown := (s.shutdown.storageFailed error failure).2 } := by
  obtain ⟨done, rest, t, es, -, rfl, hcommits, hstands⟩ := htracked.split
  obtain ⟨k, tries, ws, -, rfl, hretry, hpermits, hattempts, hwrites⟩ := hstands.of_pending hpending
  rw [hretry] at hlast
  have hattempt : job.retry.attempt = k + 1 := by rw [hretry, Retry.attemptAt_eq]
  have hcapture : s.shutdown.storageFailed error failure
      = ((abandonment job.current.height (k + 1) w e).error,
        ⟨true, true, some (abandonment job.current.height (k + 1) w e)⟩) := by
    rw [herror, hfailure, writeOf_under, hattempt]
    exact Shutdown.capture_of_none hnone
  rw [hcapture, effects_failed hpending]
  refine .gaveUp hcommits (List.append_assoc _ _ _) ?_
    (fun _ => hpermits.eq_max (Retry.isLast_attemptAt.mp hlast)) (hlined.height_eq hpending)
    rfl rfl ?_
  · rw [List.append_assoc]
    exact .fail hattempts hwrites
  · simpa [hattempts.failures_eq, ← Nat.add_assoc] using hretries

/-- **Every step of a sequencer that nobody has told to end is accounted for.** -/
theorem Stage.step (htracked : Tracked p fs trace q) (hlined : q.Lined)
    (hcalm : ¬ s₀.isCancelled) (hnone : s₀.shutdown.fatal = none) (h : Stage p s₀ trace q s)
    (hstep : q.step s signal = some (q', s')) :
    Stage p s₀ (trace ++ q.effects signal) q' s' := by
  cases h with
  | brokeOff hphase | gaveUp _ _ _ _ _ hphase =>
    rw [step_eq_none hphase] at hstep
    cases hstep
  | working hworking hshutdown hretries =>
    have hrun : ¬ s.isCancelled := by
      have hsame : s.isCancelled = s₀.isCancelled := congrArg Shutdown.run hshutdown
      rwa [hsame]
    -- whatever it does, it goes on if it keeps on working and counting
    have hgoes (hq : q'.phase.Working) (hs : s'.shutdown = s.shutdown)
        (hcounted : s'.telemetry.storageRetries
          ≡ s.telemetry.storageRetries + failures (q.effects signal) [MOD 2 ^ 64]) :
        Stage p s₀ (trace ++ q.effects signal) q' s' := by
      refine .working hq (hs.trans hshutdown) ?_
      rw [failures_append, ← Nat.add_assoc]
      exact hcounted.trans (hretries.add_right _)
    cases step_cases hstep with
    | listened hphase | missed hphase | woke hphase | retried hphase =>
      refine hgoes trivial rfl ?_
      rw [effects_eq_nil (by rw [hphase]; rfl)]
      exact Nat.ModEq.refl _
    | took hphase =>
      refine hgoes ((working_beginHeight _ _ _).resolve_right hrun) rfl ?_
      rw [effects_eq_nil (by rw [hphase]; rfl)]
      exact Nat.ModEq.refl _
    | brokeOff hphase =>
      obtain ⟨done, rest, t, es, -, rfl, hcommits, hstands⟩ := htracked.split
      rw [hphase] at hstands
      obtain ⟨-, rfl⟩ := hstands.of_popping
      rw [effects_eq_nil (by rw [hphase]; rfl)]
      exact .brokeOff rfl (by simpa using hcommits)
    | left hphase hcancel | stopped hphase hcancel => exact absurd hcancel hrun
    | ended hphase =>
      rw [hphase] at hworking
      exact hworking.elim
    | wrote hpending =>
      refine hgoes trivial rfl ?_
      rw [effects_wrote hpending]
      exact Nat.ModEq.refl _
    | @stored job w hpending =>
      refine hgoes ((working_beginHeight _ _ _).resolve_right hrun) rfl ?_
      rw [effects_stored hpending, ← List.singleton_append, failures_append, failures_closing]
      exact Nat.ModEq.refl _
    | paused hpending =>
      refine hgoes trivial rfl ?_
      rw [effects_failed hpending]
      exact Nat.mod_modEq _ _
    | gaveUp hpending hlast hfailure herror =>
      exact stage_gaveUp htracked hlined (hshutdown ▸ hnone) hretries hpending hlast hfailure herror

namespace Kept

theorem others (h : Kept p n s₀ fs trace q s) (hothers : s.Undisturbed s') :
    Kept p n s₀ fs trace q s' := by
  refine ⟨h.tracked, h.lined, h.next_eq, hothers.progress_eq.trans h.progress_eq, ?_⟩
  cases h.stage with
  | working hworking hshutdown hretries =>
    refine .working hworking (hothers.shutdown_eq.trans hshutdown) ?_
    rwa [hothers.retries_eq]
  | brokeOff hphase hcommits => exact .brokeOff hphase hcommits
  | gaveUp hcommits htrace hattempts hlast hheight hphase hshutdown hretries =>
    refine .gaveUp hcommits htrace hattempts hlast hheight hphase
      (hothers.shutdown_eq.trans hshutdown) ?_
    rwa [hothers.retries_eq]

/-- **Every step keeps the invariant.** -/
theorem step (h : Kept p n s₀ fs trace q s) (hcalm : ¬ s₀.isCancelled)
    (hnone : s₀.shutdown.fatal = none) (hstep : q.step s signal = some (q', s'))
    (hfed : ∀ d ∈ q.taken s signal, d.range.last ≤ Height.top) :
    Kept p n s₀ (fs ++ (q.taken s signal).flatMap CompletedChunk.blocks)
      (trace ++ q.effects signal) q' s' := by
  have hcommitted := marks_step (step_cases hstep)
  refine ⟨h.tracked.step hstep, lined_step h.lined (step_cases hstep) hfed, ?_, ?_,
    h.stage.step h.tracked h.lined hcalm hnone hstep⟩
  · rcases hcommitted with ⟨hmarks, hnext, -⟩ | ⟨height, hmarks, hnext, -⟩
    · rw [marks_append, hmarks, List.append_nil, hnext, h.next_eq]
    · rw [marks_append, hmarks, hnext]
      simp
  · rcases hcommitted with ⟨hmarks, -, hprogress⟩ | ⟨height, hmarks, -, hprogress⟩
    · rw [marks_append, hmarks, List.append_nil, hprogress, h.progress_eq]
    · rw [marks_append, hmarks, hprogress]
      simp

end Kept

theorem kept (h : Course p n s₀ fed trace q s) (hcalm : ¬ s₀.isCancelled)
    (hnone : s₀.shutdown.fatal = none) (hfed : ∀ d ∈ fed, d.range.last ≤ Height.top) :
    Kept p n s₀ (fed.flatMap CompletedChunk.blocks) trace q s := by
  induction h with
  | start =>
    refine ⟨tracked_start p n, ?_, rfl, rfl, .working trivial rfl (Nat.ModEq.refl _)⟩
    intro fs hfs
    cases hfs
    exact ⟨rfl, by simp⟩
  | others hcourse hothers ih => exact (ih hfed).others hothers
  | step hcourse hstep ih =>
    simp only [List.mem_append] at hfed
    rw [List.flatMap_append]
    exact (ih fun d hd => hfed d (Or.inl hd)).step hcalm hnone hstep fun d hd => hfed d (Or.inr hd)

end Course

/-! ### The law -/

/-- **What is left behind by a sequencer that gives the height of `f` up**, where `t` was
done before, `w` is the write that failed last, and `e` is what the store has said. -/
structure Abandoned (n : ℕ) (s₀ : Shared) (f : FetchedBlock) (attempts : ℕ) (t : List Effect)
    (w : Write) (e : Failure) (c : Capture) (q : Sequencer) (s : Shared) : Prop where
  /-- It returns the failure that is kept as the fatal one. -/
  returns : q.phase = .exited (.error c.error)
  /-- Both tokens are cancelled. -/
  shutdown_eq : s.shutdown = { root := true, run := true, fatal := some c }
  /-- The failure is put down to the height. -/
  origin_eq : c.origin = .storage f.height
  /-- It names the height, the attempts and the write, and goes on as the store has it. -/
  chain_eq : c.error.chain = .fatal (.storage f.height) :: .storage ⟨w.op, f.height, attempts⟩
    :: .write w.op :: e.chain
  /-- In words. -/
  messages_eq : c.error.chain.map Cause.message = "storage write exhausted its retries"
    :: s!"height {f.height} not stored after {attempts} attempt(s)" :: w.op.message
    :: e.chain.map Cause.message
  /-- If it is the first height, the last committed height is what it was at the start. -/
  first : marks t = [] → f.height = n ∧ s.progress = s₀.progress
  /-- If it is not, the last committed height is the one below. -/
  later : marks t ≠ [] → ∃ h, s.progress.lastCommitted = some h ∧ f.height = h + 1
  /-- Of its attempts, all but the last one are counted, in a word of 64 bits. -/
  retries_eq : s.telemetry.storageRetries
    ≡ s₀.telemetry.storageRetries + failures t + (attempts - 1) [MOD 2 ^ 64]
  /-- It does nothing more, whatever the other tasks do. -/
  silent : ∀ s' signal, q.step s' signal = none

/-- The height above the last committed one, if it is not committed itself. -/
theorem lastCommitted_of_next {marked : List ℕ} {h : ℕ} (hle : ∀ g ∈ marked, g ≤ Height.top)
    (hnever : h ∉ marked) (hne : marked ≠ [])
    (hnext : h = (marked.getLast?.map Height.next).getD n) (progress : Progress) :
    ∃ g, ((marked.getLast?.map Progress.mk).getD progress).lastCommitted = some g ∧ h = g + 1 := by
  have hg := List.getLast?_eq_getLast_of_ne_nil hne
  have hmem := List.getLast_mem hne
  generalize marked.getLast hne = g at hg hmem
  rw [hg, Option.map_some, Option.getD_some] at hnext
  rw [hg, Option.map_some, Option.getD_some]
  have htop := hle g hmem
  have hlt : g < Height.top := by
    refine Nat.lt_of_le_of_ne htop fun heq => hnever ?_
    rw [hnext, heq, Height.next_top, ← heq]
    exact hmem
  refine ⟨g, ?_, hnext.trans (Height.next_of_lt hlt)⟩
  unfold Progress.lastCommitted
  exact if_neg hlt.ne

/-- Marked heights are heights of chunks. -/
theorem Course.Kept.marks_le {fs : List FetchedBlock} (h : Course.Kept p n s₀ fs trace q s)
    (hfs : ∀ f ∈ fs, f.height ≤ Height.top) : ∀ g ∈ marks trace, g ≤ Height.top := by
  obtain ⟨done, rest, rfl, hmarks, -⟩ := h.tracked.tells
  rw [hmarks]
  intro g hg
  obtain ⟨f, hf, rfl⟩ := List.mem_map.mp hg
  exact hfs f (List.mem_append_left _ hf)

/-- As long as the sequencer is at work, its policy leaves room for one more attempt than
have failed at the end of what it did. -/
theorem permits_of_working {fs : List FetchedBlock} {f : FetchedBlock} {k : ℕ}
    (htracked : Tracked p fs (t ++ es) q) (hworking : q.phase.Working)
    (hattempts : Attempts f k es) : p.Permits (k + 1) := by
  obtain ⟨done, rest, u, ds, -, htrace, hcommits, hstands⟩ := htracked.split
  obtain ⟨vs, -, hds⟩ := hcommits.split hattempts.onlyWrites htrace.symm
  have hle : k ≤ failures ds := by
    rw [hds, failures_append, hattempts.failures_eq]
    omega
  generalize q.phase = phase at hstands hworking
  cases hstands with
  | popping =>
    obtain rfl : k = 0 := Nat.le_zero.mp hle
    exact p.permits_one
  | pending hpending hretry hpermits htries =>
    rw [failures_append, htries.failures_eq, failures_stored] at hle
    exact fun n hn => (by omega : _ ≤ _).trans (hpermits n hn)
  | pausing hretry hpermits htries =>
    rw [htries.failures_eq] at hle
    exact fun n hn => (by omega : _ ≤ _).trans (hpermits n hn)
  | left hended | broken hended =>
    obtain rfl | ⟨result, rfl⟩ := hended <;> exact hworking.elim

/-- **A height that cannot be stored ends the run, and is named.**  Whatever the other
tasks do, and whatever the store has said before: once as many attempts at a height
have failed as the policy allows for, and none had succeeded before, the run ends with
the failure of the last write. -/
theorem abandoned_of_course {f : FetchedBlock} (hcourse : Course p n s₀ fed trace q s)
    (hfed : ∀ d ∈ fed, d.range.last ≤ Height.top) (hcalm : ¬ s₀.isCancelled)
    (hnone : s₀.shutdown.fatal = none) (hlimit : p.attempts = some m) (htrace : trace = t ++ es)
    (hattempts : Attempts f (max 1 m) es) (hnever : f.height ∉ marks t) :
    ∃ w e c, es.getLast? = some (.wrote w (.error e)) ∧
      Abandoned n s₀ f (max 1 m) t w e c q s := by
  subst htrace
  have hkept := hcourse.kept hcalm hnone hfed
  have hheights : ∀ g ∈ fed.flatMap CompletedChunk.blocks, g.height ≤ Height.top := by
    intro g hg
    obtain ⟨d, hd, hg⟩ := List.mem_flatMap.mp hg
    exact (d.height_le_last hg).trans (hfed d hd)
  have hcount := hattempts.failures_eq
  have hpositive : 1 ≤ max 1 m := Nat.le_max_left 1 m
  cases hkept.stage with
  | working hworking =>
    have hpermits := permits_of_working hkept.tracked hworking hattempts m hlimit
    omega
  | brokeOff hphase hcommits =>
    -- it breaks off between two heights, after no attempt at the next one
    obtain ⟨vs, -, hnil⟩ := hcommits.split hattempts.onlyWrites (List.append_nil _)
    rw [(List.append_eq_nil_iff.mp hnil.symm).2, failures_nil] at hcount
    omega
  | @gaveUp done g k u tries w e hcommits htrace htries hlast hheight hphase hshutdown hretries =>
    obtain ⟨vs, rfl, hsplit⟩ := hcommits.split hattempts.onlyWrites htrace.symm
    have hk := hlast m hlimit
    rw [← hk] at hattempts hcount ⊢
    -- the attempts at the end are those at the height that was given up
    obtain ⟨outcome, hblock⟩ := hattempts.exists_block
    have hblock' := List.mem_append_right vs hblock
    rw [← hsplit] at hblock'
    have hsame : f.block = g.block := htries.block_eq hblock'
    have hf : f.height = g.height := congrArg Block.height hsame
    have hend : es.getLast? = some (.wrote w (.error e)) := by
      have hne : es ≠ [] := List.ne_nil_of_mem hblock
      have hgetLast := congrArg List.getLast? hsplit
      simpa [List.getLast?_append, List.getLast?_eq_getLast_of_ne_nil hne] using hgetLast.symm
    have hmarks : marks (u ++ vs ++ es) = marks (u ++ vs) := by
      rw [marks_append, hattempts.onlyWrites.silent.1, List.append_nil]
    have hnext := hkept.next_eq
    have hprogress := hkept.progress_eq
    have hle := hkept.marks_le hheights
    rw [hmarks] at hnext hprogress hle
    rw [← hheight, ← hf] at hnext
    rw [← hf] at hphase hshutdown
    refine ⟨w, e, abandonment f.height (k + 1) w e, hend, hphase, hshutdown, rfl, rfl, rfl,
      fun hempty => ?_, fun hne => ?_, ?_, step_eq_none hphase⟩
    · rw [hempty] at hnext hprogress
      exact ⟨hnext, hprogress⟩
    · rw [hprogress]
      exact lastCommitted_of_next hle hnever hne hnext _
    · -- no write has failed between the committed heights and the first of the attempts
      have hvs := congrArg failures hsplit
      rw [htries.failures_eq, failures_append, hcount] at hvs
      have hzero : failures vs = 0 := by omega
      rw [failures_append, hzero]
      exact hretries

/-- The first height is stored.  The second one fails at its transaction, and then, for
another reason, at its block. -/
theorem abandoned_of_course_twice :
    let t : TxResult := ⟨2, 0, "", [], .null⟩
    let f : FetchedBlock := ⟨⟨1, "", "", "", [], .null⟩, []⟩
    let g : FetchedBlock := ⟨⟨2, "", "", "", [[]], .null⟩, [t]⟩
    let d : CompletedChunk := ⟨⟨1, 2, by decide⟩, [f, g], rfl⟩
    let busy : Failure := .ofText "database is busy"
    let full : Failure := ⟨.text "cannot write page 7", [.text "disk full"]⟩
    let before : List Effect := .wrote (.block f.block) (.ok ()) :: f.closing
    let es : List Effect := [.wrote (.block g.block) (.ok ()), .wrote (.tx t) (.error busy),
      .wrote (.block g.block) (.error full)]
    ∃ s₀ q s, Course ⟨0, 0, some 2⟩ 1 s₀ [d] (before ++ es) q s ∧ ¬ s₀.isCancelled ∧
      s₀.shutdown.fatal = none ∧ Attempts g (max 1 2) es ∧ g.height ∉ marks before ∧
      ∃ c, Abandoned 1 s₀ g (max 1 2) before (.block g.block) full c q s ∧
        c.error.message = "storage write exhausted its retries: "
          ++ "height 2 not stored after 2 attempt(s): save_block: cannot write page 7: disk full" := by
  intro t f g d busy full before es
  let s₀ : Shared :=
    { store := .empty, publisher := .start 1 Nat.one_pos, progress := .ofHeight? none
      telemetry := {}, planner := .start 0 2 Nat.two_pos, shutdown := {}
      buffer := { Buffer.start 1 1 Nat.one_pos with chunks := HeightMap.empty.insert 1 d } }
  have hcourse : ∃ q s, Course ⟨0, 0, some 2⟩ 1 s₀ [d] (before ++ es) q s := by
    have h₀ : Course ⟨0, 0, some 2⟩ 1 s₀ [] [] (.start _ 1) s₀ := .start
    have h₁ := Course.step h₀ (rfl : step _ _ .turn = some _)
    have h₂ := Course.step h₁ (rfl : step _ _ .turn = some _)
    have h₃ := Course.step h₂ (rfl : step _ _ (.written (.ok ())) = some _)
    have h₄ := Course.step h₃ (rfl : step _ _ (.written (.ok ())) = some _)
    have h₅ := Course.step h₄ (rfl : step _ _ (.written (.error busy)) = some _)
    have h₆ := Course.step h₅ (rfl : step _ _ .elapsed = some _)
    exact ⟨_, _, Course.step h₆ (rfl : step _ _ (.written (.error full)) = some _)⟩
  have hattempts : Attempts g (max 1 2) es := by
    have hwrites : g.writes = [.block g.block] ++ .tx t :: [] := rfl
    have hwrites' : g.writes = [] ++ .block g.block :: [.tx t] := rfl
    have hfirst := Attempts.fail (e := busy) .none hwrites
    have hsecond := Attempts.fail (e := full) hfirst hwrites'
    exact hsecond
  obtain ⟨q, s, hcourse⟩ := hcourse
  have hfed : ∀ c ∈ [d], c.range.last ≤ Height.top := by simp [d, Height.top]
  have hnever : g.height ∉ marks before := by decide
  obtain ⟨w, e, c, hlast, habandoned⟩ :=
    abandoned_of_course hcourse hfed (by decide) rfl rfl rfl hattempts hnever
  cases hlast
  refine ⟨s₀, q, s, hcourse, by decide, rfl, hattempts, hnever, c, habandoned, ?_⟩
  unfold Failure.message
  rw [habandoned.messages_eq]
  decide +kernel

end Sequencer

/-! ### In a run of the pipeline -/

namespace World

variable {slots : ℕ} {w w' : World} {m : Move}

/-- A sequencer that fails ends the run. -/
theorem closed_of_calm (h : w.Manned slots) {signal : SequencerSignal} {q : Sequencer} {s : Shared}
    (hstep : Sequencer.Step w.sequencer w.shared signal q s)
    (hrun : ¬ (closed w.settings q s).2.isCancelled) : closed w.settings q s = (q, s) := by
  refine closed_eq fun failure hphase => hrun ?_
  rw [closed_of_error h.supervised hphase]
  exact ((h.sound_step hstep).capture _ _).2

/-- The other tasks leave alone what the sequencer is in charge of, unless they end the
run. -/
theorem undisturbed_move (h : w.Manned slots) (hmove : w.Moved m w')
    (hother : ∀ signal, m ≠ .sequencer signal) (hrun : ¬ w'.shared.isCancelled) :
    w'.sequencer = w.sequencer ∧ w.shared.Undisturbed w'.shared := by
  cases hmove with
  | @worker id phase next signal s hphase hstep =>
    have hshutdown := Worker.shutdown_step hstep
    obtain ⟨hledger, hretries⟩ := Worker.ledger_step hstep
    rcases hfault : (workerExit? next).bind (workerFault? id) with _ | ⟨context, failure⟩
    · rw [attended_eq hfault]
      exact ⟨rfl, congrArg Ledger.progress hledger, hretries, hshutdown⟩
    · -- a fault would have ended the run
      obtain ⟨exit, hexit, hfault⟩ := Option.bind_eq_some_iff.mp hfault
      cases next <;> cases hexit
      have hcancel := ((hshutdown ▸ h.shutdown).capture (.task context) failure).2
      rw [← shutdown_attended h.supervised hfault] at hcancel
      exact absurd hcancel hrun
  | sequencer => exact absurd rfl (hother _)
  | @heard answer => cases answer <;> exact ⟨rfl, rfl, rfl, rfl⟩
  | refreshed => exact ⟨rfl, rfl, rfl, rfl⟩
  | cancelRun | cancelRoot => exact absurd rfl hrun

/-- **In a run of the pipeline that nobody has told to end, the sequencer fares as it does
among other tasks.** -/
theorem course_of_launch {f : Fetcher} {latest : Option ℕ} {head : Except Failure ℕ}
    {ms : List Move} {w₀ : World} (hlaunch : (f.launch latest head).engine = .running w₀)
    (hrun : w₀.after ms = some w) (hcalm : ¬ w.shared.isCancelled) :
    ∃ fed, Sequencer.Course w₀.sequencer.policy w₀.sequencer.nextCommit w₀.shared fed
      (w₀.trace ms) w.sequencer w.shared := by
  have hstart : w₀.sequencer = .start w₀.sequencer.policy w₀.sequencer.nextCommit := by
    cases hlaunch
    rfl
  have hkept := along_induction (g := effects) (P := fun t v =>
    v.Manned f.config.params.maxSlots ∧ (¬ v.shared.isCancelled →
      ∃ fed, Sequencer.Course w₀.sequencer.policy w₀.sequencer.nextCommit w₀.shared fed t
        v.sequencer v.shared)) hrun ⟨manned_launch hlaunch, fun _ => ⟨[], ?_⟩⟩ ?_
  · exact hkept.2 hcalm
  · rw [hstart]
    exact .start
  · intro t v m v' ⟨hmanned, hcourse⟩ hmove
    have hmoved := move_cases hmove
    refine ⟨hmanned.move hmoved, fun hrun' => ?_⟩
    obtain ⟨fed, hcourse⟩ := hcourse fun hcancel => hrun' (cancelled_move hmoved hcancel)
    by_cases hother : ∀ signal, m ≠ .sequencer signal
    · obtain ⟨hsame, hothers⟩ := undisturbed_move hmanned hmoved hother hrun'
      have heffects : v.effects m = [] := by
        cases m with
        | sequencer signal => exact absurd rfl (hother signal)
        | worker | refresher | cancelRun | cancelRoot => rfl
      rw [hsame, heffects, List.append_nil]
      exact ⟨fed, hcourse.others hothers⟩
    · obtain ⟨signal, rfl⟩ : ∃ signal, m = .sequencer signal := by simpa using hother
      obtain ⟨q, s, hstep, rfl⟩ := sequencer_of_move hmove
      rw [closed_of_calm hmanned (Sequencer.step_cases hstep) hrun']
      exact ⟨_, hcourse.step hstep⟩

end World
end BlockIngest
