import BlockIngest.Proofs.Commit.Step
import Mathlib.Data.List.Chain

/-!
# The discipline of the sequencer

What the sequencer writes and publishes follows one pattern, whatever the writes
come to and whenever the run is cancelled.  Height after height is tried, each
attempt beginning with the block, until one attempt succeeds; only then are the
events of the height published, and only then is the next height begun.  The
last height may be left before it is committed: between two attempts, within one,
or before the first.

The steps are followed from the front, so the invariant speaks of heights that
were committed and, behind them, of one that is open (`Commits`, `Stands`); the
law itself is read from the first height on (`Disciplined`).

## Main definitions

* `Attempts` — attempts at a height that have failed.
* `Disciplined` — the law.
* `Commits`, `Stands`, `Sequencer.Tracked` — the invariant.
* `Sequencer.Run` — a run of the sequencer, with the chunks that it was fed and
  what it did.

## Main results

* `Sequencer.Tracked.step` — **every step keeps the invariant.**
* `Sequencer.disciplined_of_run` — **every run is disciplined.**
-/

namespace BlockIngest

/-- How many attempts a policy leaves room for; there is always one. -/
def Retry.Policy.Permits (p : Retry.Policy) (k : ℕ) : Prop :=
  ∀ n, p.attempts = some n → k ≤ max 1 n

namespace Retry

variable {p : Policy} {k : ℕ}

instance : DecidablePred p.Permits := fun k =>
  inferInstanceAs (Decidable (∀ n ∈ p.attempts, k ≤ max 1 n))

theorem Policy.Permits.of_succ (h : p.Permits (k + 1)) : p.Permits k :=
  fun n hn => Nat.le_of_succ_le (h n hn)

theorem Policy.permits_one (p : Policy) : p.Permits 1 := fun n _ => Nat.le_max_left 1 n

/-- The last attempt that is permitted has the number that the policy sets. -/
theorem Policy.Permits.eq_max {n : ℕ} (h : p.Permits (k + 1)) (hmore : ¬ p.Permits (k + 2))
    (hn : p.attempts = some n) : k + 1 = max 1 n := by
  unfold Permits at h hmore
  simp only [hn, Option.some.injEq, forall_eq'] at h hmore
  omega

theorem Policy.Permits.exists_eq_max (h : p.Permits (k + 1)) (hmore : ¬ p.Permits (k + 2)) :
    ∃ n, p.attempts = some n ∧ k + 1 = max 1 n := by
  have hlimited : ∃ n, p.attempts = some n := by
    unfold Permits at hmore
    push Not at hmore
    exact hmore.imp fun _ => And.left
  obtain ⟨n, hn⟩ := hlimited
  exact ⟨n, hn, h.eq_max hmore hn⟩

@[simp] theorem attempt_attemptAt : (attemptAt p k).attempt = k + 1 := by rw [attemptAt_eq]

@[simp] theorem delay_attemptAt : (attemptAt p k).delay = p.delay k := by rw [attemptAt_eq]

theorem isLast_attemptAt : (attemptAt p k).isLast ↔ ¬ p.Permits (k + 2) := by
  rw [attemptAt_eq]
  unfold isLast Policy.Permits
  cases p.attempts with
  | none => simp
  | some n =>
    simp only [decide_eq_true_eq, Option.some.injEq, forall_eq']
    omega

/-- An attempt that is followed by a pause was not the last one. -/
theorem isLast_of_pause {r : Retry} {length : ℕ} (h : r.judge false = .pause length) :
    r.isLast = false := by
  unfold judge at h
  rw [if_neg Bool.false_ne_true] at h
  split at h
  · cases h
  · next hmore => exact eq_false_of_ne_true hmore

/-- A pause leaves room for one more attempt. -/
theorem permits_of_pause {length : ℕ} (h : (attemptAt p k).judge false = .pause length) :
    p.Permits (k + 2) := by
  by_contra hmore
  have hlast := isLast_attemptAt.mpr hmore
  rw [isLast_of_pause h] at hlast
  cases hlast

end Retry

/-- `k` attempts at a height, each of which stops at a write that fails. -/
inductive Attempts (f : FetchedBlock) : ℕ → List Effect → Prop where
  /-- There was none yet. -/
  | none : Attempts f 0 []
  /-- One more was made. -/
  | fail {k : ℕ} {es : List Effect} {done rest : List Write} {w : Write} {e : Failure}
      (hearlier : Attempts f k es) (hwrites : f.writes = done ++ w :: rest) :
      Attempts f (k + 1) (es ++ (stored done ++ [.wrote w (.error e)]))

/-- What is done about heights, one after the other. -/
inductive Disciplined (p : Retry.Policy) : List FetchedBlock → List Effect → Prop where
  /-- Nothing was done. -/
  | idle {fs : List FetchedBlock} : Disciplined p fs []
  /-- The attempts at the first height have failed. -/
  | tried {f : FetchedBlock} {fs : List FetchedBlock} {k : ℕ} {es : List Effect}
      (hattempts : Attempts f k es) (hpermits : p.Permits k) : Disciplined p (f :: fs) es
  /-- One more attempt at the first height is not finished. -/
  | writing {f : FetchedBlock} {fs : List FetchedBlock} {k : ℕ} {es : List Effect}
      {done rest : List Write} {w : Write} (hattempts : Attempts f k es)
      (hpermits : p.Permits (k + 1)) (hwrites : f.writes = done ++ w :: rest) :
      Disciplined p (f :: fs) (es ++ stored done)
  /-- One more attempt at the first height has succeeded, its events were published,
  and the other heights follow. -/
  | committed {f : FetchedBlock} {fs : List FetchedBlock} {k : ℕ} {es rest : List Effect}
      (hattempts : Attempts f k es) (hpermits : p.Permits (k + 1)) (hrest : Disciplined p fs rest) :
      Disciplined p (f :: fs) (es ++ (stored f.writes ++ (f.closing ++ rest)))

/-- What is done about heights that are all committed in the end. -/
inductive Commits (p : Retry.Policy) : List FetchedBlock → List Effect → Prop where
  /-- There is none. -/
  | nil : Commits p [] []
  /-- One more is committed. -/
  | snoc {f : FetchedBlock} {fs : List FetchedBlock} {k : ℕ} {es t : List Effect}
      (hearlier : Commits p fs t) (hattempts : Attempts f k es) (hpermits : p.Permits (k + 1)) :
      Commits p (fs ++ [f]) (t ++ (es ++ (stored f.writes ++ f.closing)))

/-- What may follow on committed heights is disciplined by itself. -/
theorem Commits.disciplined {p : Retry.Policy} {fs gs : List FetchedBlock} {t es : List Effect}
    (h : Commits p fs t) (hes : Disciplined p gs es) : Disciplined p (fs ++ gs) (t ++ es) := by
  -- from the back: the last committed height is put before what follows
  induction h generalizing gs es with
  | nil => exact hes
  | snoc hearlier hattempts hpermits ih =>
    have hnext := ih (.committed hattempts hpermits hes)
    simpa only [List.append_assoc, List.singleton_append, List.cons_append, List.nil_append]
      using hnext

theorem Commits.append {p : Retry.Policy} {fs gs : List FetchedBlock} {t u : List Effect}
    (h : Commits p fs t) (hu : Commits p gs u) : Commits p (fs ++ gs) (t ++ u) := by
  induction hu with
  | nil =>
    rw [List.append_nil, List.append_nil]
    exact h
  | snoc hearlier hattempts hpermits ih =>
    rw [← List.append_assoc, ← List.append_assoc]
    exact .snoc ih hattempts hpermits

/-! ### The invariant -/

/-- Where the sequencer stands in its phase: the heights that are left of what it
was fed, and what it has done about the first of them. -/
inductive Stands (p : Retry.Policy) : SequencerPhase → List FetchedBlock → List Effect → Prop where
  /-- It has committed all that it was fed. -/
  | popping {call : CallPhase} : Stands p (.popping call) [] []
  /-- It waits for a write of an attempt. -/
  | pending {phase : SequencerPhase} {job : CommitJob} {w : Write} {later : List TxResult} {k : ℕ}
      {es : List Effect} {done : List Write} (hpending : phase.pending? = some (job, w, later))
      (hretry : job.retry = .attemptAt p k) (hpermits : p.Permits (k + 1))
      (hattempts : Attempts job.current k es)
      (hwrites : job.current.writes = done ++ w :: later.map .tx) :
      Stands p phase (job.current :: job.later) (es ++ stored done)
  /-- It waits for the next attempt. -/
  | pausing {job : CommitJob} {length k : ℕ} {es : List Effect}
      (hretry : job.retry = .attemptAt p k) (hpermits : p.Permits (k + 2))
      (hattempts : Attempts job.current (k + 1) es) :
      Stands p (.pausing job length) (job.current :: job.later) es
  /-- It is about to end, or has ended, before the first attempt at a height. -/
  | left {phase : SequencerPhase} {fs : List FetchedBlock}
      (hended : phase = .draining ∨ ∃ result, phase = .exited result) : Stands p phase fs []
  /-- It is about to end, or has ended, after an attempt. -/
  | broken {phase : SequencerPhase} {f : FetchedBlock} {fs : List FetchedBlock} {k : ℕ}
      {es : List Effect} (hended : phase = .draining ∨ ∃ result, phase = .exited result)
      (hattempts : Attempts f k es) (hpermits : p.Permits k) : Stands p phase (f :: fs) es

namespace Stands

variable {p : Retry.Policy} {phase : SequencerPhase} {fs : List FetchedBlock} {es : List Effect}

/-- What was done about the open height is disciplined. -/
theorem disciplined (h : Stands p phase fs es) : Disciplined p fs es := by
  cases h with
  | popping => exact .idle
  | pending hpending hretry hpermits hattempts hwrites =>
    exact .writing hattempts hpermits hwrites
  | pausing hretry hpermits hattempts =>
    exact .tried hattempts (hpermits.of_succ)
  | left => exact .idle
  | broken hended hattempts hpermits => exact .tried hattempts hpermits

/-- A pending write belongs to an attempt at the first height that is left. -/
theorem of_pending {job : CommitJob} {w : Write} {later : List TxResult}
    (h : Stands p phase fs es) (hpending : phase.pending? = some (job, w, later)) :
    ∃ k tries done, fs = job.current :: job.later ∧ es = tries ++ stored done ∧
      job.retry = .attemptAt p k ∧ p.Permits (k + 1) ∧ Attempts job.current k tries ∧
      job.current.writes = done ++ w :: later.map .tx := by
  cases h with
  | popping | pausing => cases hpending
  | left hended | broken hended =>
    rcases hended with rfl | ⟨result, rfl⟩ <;> cases hpending
  | pending hpending' hretry hpermits hattempts hwrites =>
    rw [hpending'] at hpending
    cases hpending
    exact ⟨_, _, _, rfl, rfl, hretry, hpermits, hattempts, hwrites⟩

/-- A pause follows on an attempt at the first height that is left. -/
theorem of_pausing {job : CommitJob} {length : ℕ} (h : Stands p (.pausing job length) fs es) :
    ∃ k, fs = job.current :: job.later ∧ job.retry = .attemptAt p k ∧ p.Permits (k + 2) ∧
      Attempts job.current (k + 1) es := by
  cases h with
  | pending hpending => cases hpending
  | pausing hretry hpermits hattempts => exact ⟨_, rfl, hretry, hpermits, hattempts⟩
  | left hended | broken hended => rcases hended with hended | ⟨result, hended⟩ <;> cases hended

/-- While it looks for a chunk, nothing is left. -/
theorem of_popping {call : CallPhase} (h : Stands p (.popping call) fs es) : fs = [] ∧ es = [] := by
  cases h with
  | popping => exact ⟨rfl, rfl⟩
  | pending hpending => cases hpending
  | left hended | broken hended => rcases hended with hended | ⟨result, hended⟩ <;> cases hended

/-- What it stopped at stays as it was. -/
theorem of_draining {result : Except Failure Unit} (h : Stands p .draining fs es) :
    Stands p (.exited result) fs es := by
  cases h with
  | pending hpending => cases hpending
  | left => exact .left (Or.inr ⟨result, rfl⟩)
  | broken hended hattempts hpermits => exact .broken (Or.inr ⟨result, rfl⟩) hattempts hpermits

theorem of_exited {result other : Except Failure Unit} (h : Stands p (.exited result) fs es) :
    Stands p (.exited other) fs es := by
  cases h with
  | pending hpending => cases hpending
  | left => exact .left (Or.inr ⟨other, rfl⟩)
  | broken hended hattempts hpermits => exact .broken (Or.inr ⟨other, rfl⟩) hattempts hpermits

end Stands

namespace Sequencer

variable {p : Retry.Policy} {q q' : Sequencer} {s s' : Shared} {signal : SequencerSignal}

/-- A height is begun, or there is none to begin. -/
theorem stands_beginHeight (hpolicy : q.policy = p) (s : Shared) (fs : List FetchedBlock) :
    Stands p (q.beginHeight s fs).phase fs [] := by
  cases fs with
  | nil => exact .popping
  | cons f later =>
    by_cases hcancel : s.isCancelled
    · rw [beginHeight, if_pos hcancel]
      exact .left (Or.inl rfl)
    · rw [beginHeight, if_neg hcancel, hpolicy]
      have hpending : (SequencerPhase.savingBlock ⟨f, later, .start p⟩).pending?
          = some (⟨f, later, .start p⟩, .block f.block, f.txs) := rfl
      have hretry : Retry.start p = .attemptAt p 0 := rfl
      have hwrites : f.writes = [] ++ .block f.block :: f.txs.map .tx := rfl
      exact .pending hpending hretry p.permits_one .none hwrites

theorem stands_heightStored (hpolicy : q.policy = p) (s : Shared) (job : CommitJob) :
    Stands p (q.heightStored s job).1.phase job.later [] :=
  stands_beginHeight (q := { q with nextCommit := Height.next job.current.height }) hpolicy _ _

theorem policy_beginHeight (q : Sequencer) (s : Shared) (fs : List FetchedBlock) :
    (q.beginHeight s fs).policy = q.policy := by
  cases fs with
  | nil => rfl
  | cons f later => exact (apply_ite policy _ _ _).trans (ite_self _)

theorem policy_step (h : Step q s signal q' s') : q'.policy = q.policy := by
  cases h with
  | took => exact policy_beginHeight _ _ _
  | stored => exact policy_beginHeight _ _ _
  | _ => rfl

/-- A step commits some of the heights that are left, mostly none, and leaves the
sequencer standing with the others. -/
def Advances (p : Retry.Policy) (rest : List FetchedBlock) (es : List Effect) (q : Sequencer) :
    Prop :=
  ∃ done rest' t es', rest = done ++ rest' ∧ es = t ++ es' ∧ Commits p done t ∧
    Stands p q.phase rest' es'

/-- Where nothing is committed, the sequencer stands with what was left. -/
theorem advances_of_stands {rest : List FetchedBlock} {es : List Effect}
    (h : Stands p q.phase rest es) : Advances p rest es q :=
  ⟨[], rest, [], es, rfl, rfl, .nil, h⟩

/-- **A step advances what the sequencer stands with**, by the chunk that it takes
out and by its effects. -/
theorem advances_step {rest : List FetchedBlock} {es : List Effect} (hpolicy : q.policy = p)
    (hstands : Stands p q.phase rest es) (h : Step q s signal q' s') :
    Advances p (rest ++ (q.taken s signal).flatMap CompletedChunk.blocks)
      (es ++ q.effects signal) q' := by
  cases h with
  -- as long as it looks for a chunk, nothing is left and nothing is done
  | listened hphase | woke hphase =>
    rw [taken_eq_nil (by rw [hphase]; simp), effects_eq_nil (by rw [hphase]; rfl)]
    rw [hphase] at hstands
    obtain ⟨rfl, rfl⟩ := hstands.of_popping
    exact advances_of_stands .popping
  | missed hphase hrun htake =>
    rw [taken_of_take hphase htake, effects_eq_nil (by rw [hphase]; rfl)]
    rw [hphase] at hstands
    obtain ⟨rfl, rfl⟩ := hstands.of_popping
    exact advances_of_stands .popping
  | @took c b hphase hrun htake hfirst =>
    rw [taken_of_take hphase htake, effects_eq_nil (by rw [hphase]; rfl)]
    rw [hphase] at hstands
    obtain ⟨rfl, rfl⟩ := hstands.of_popping
    rw [Option.toList_some, List.flatMap_singleton]
    exact advances_of_stands (stands_beginHeight hpolicy s c.blocks)
  | brokeOff hphase hrun htake hfirst =>
    rw [taken_of_take hphase htake, effects_eq_nil (by rw [hphase]; rfl)]
    rw [hphase] at hstands
    obtain ⟨rfl, rfl⟩ := hstands.of_popping
    exact advances_of_stands (.left (Or.inr ⟨_, rfl⟩))
  | left hphase =>
    rw [taken_cancel, effects_eq_nil (by rw [hphase]; rfl)]
    rw [hphase] at hstands
    obtain ⟨rfl, rfl⟩ := hstands.of_popping
    exact advances_of_stands (.left (Or.inl rfl))
  -- a write that succeeds moves from those that are left to those that are done
  | @wrote job w tx later hpending =>
    obtain ⟨k, tries, done, rfl, rfl, hretry, hpermits, hattempts, hwrites⟩ :=
      hstands.of_pending hpending
    have hwrites' : job.current.writes = (done ++ [w]) ++ .tx tx :: later.map .tx := by
      rw [hwrites, List.append_assoc]
      rfl
    have hpending' : (SequencerPhase.savingTx job tx later).pending? = some (job, .tx tx, later) :=
      rfl
    have hstands' := Stands.pending hpending' hretry hpermits hattempts hwrites'
    rw [taken_of_pending hpending, effects_wrote hpending, List.flatMap_nil, List.append_nil,
      List.append_assoc, ← stored_singleton, ← stored_append]
    exact advances_of_stands hstands'
  -- after the last one the attempt is complete, and the height is committed
  | @stored job w hpending =>
    obtain ⟨k, tries, done, rfl, rfl, hretry, hpermits, hattempts, hwrites⟩ :=
      hstands.of_pending hpending
    have heffects : tries ++ BlockIngest.stored done ++ .wrote w (.ok ()) :: job.current.closing
        = tries ++ (BlockIngest.stored job.current.writes ++ job.current.closing) := by
      rw [hwrites, stored_append]
      simp only [List.append_assoc]
      rfl
    rw [taken_of_pending hpending, effects_stored hpending, List.flatMap_nil, List.append_nil,
      heffects]
    exact ⟨[job.current], job.later, _, [], rfl, (List.append_nil _).symm,
      .snoc .nil hattempts hpermits, stands_heightStored hpolicy _ job⟩
  -- a write that fails ends the attempt, whether another one follows or not
  | @paused job w later e length hpending hjudge =>
    obtain ⟨k, tries, done, rfl, rfl, hretry, hpermits, hattempts, hwrites⟩ :=
      hstands.of_pending hpending
    rw [taken_of_pending hpending, effects_failed hpending, List.flatMap_nil, List.append_nil,
      List.append_assoc]
    exact advances_of_stands
      (.pausing hretry (Retry.permits_of_pause (hretry ▸ hjudge)) (.fail hattempts hwrites))
  | @gaveUp job w later e failure error hpending hlast =>
    obtain ⟨k, tries, done, rfl, rfl, hretry, hpermits, hattempts, hwrites⟩ :=
      hstands.of_pending hpending
    rw [taken_of_pending hpending, effects_failed hpending, List.flatMap_nil, List.append_nil,
      List.append_assoc]
    exact advances_of_stands (.broken (Or.inr ⟨_, rfl⟩) (.fail hattempts hwrites) hpermits)
  | @retried job length hphase =>
    rw [taken_eq_nil (by rw [hphase]; simp), effects_eq_nil (by rw [hphase]; rfl)]
    rw [hphase] at hstands
    obtain ⟨k, rfl, hretry, hpermits, hattempts⟩ := hstands.of_pausing
    -- the next attempt begins with the block, and nothing of it is done yet
    have hpending : (SequencerPhase.savingBlock { job with retry := job.retry.again }).pending?
        = some ({ job with retry := job.retry.again }, .block job.current.block, job.current.txs) :=
      rfl
    have hretry' : job.retry.again = .attemptAt p (k + 1) := congrArg Retry.again hretry
    have hwrites : job.current.writes = [] ++ .block job.current.block :: job.current.txs.map .tx :=
      rfl
    have hstands' := Stands.pending hpending hretry' hpermits hattempts hwrites
    rw [List.flatMap_nil, List.append_nil]
    exact advances_of_stands hstands'
  -- the attempt that the pause left room for is not made
  | stopped hphase hcancel hsignal =>
    rw [taken_eq_nil (by rw [hphase]; simp), effects_eq_nil (by rw [hphase]; rfl)]
    rw [hphase] at hstands
    obtain ⟨k, rfl, hretry, hpermits, hattempts⟩ := hstands.of_pausing
    rw [List.flatMap_nil, List.append_nil, List.append_nil]
    exact advances_of_stands (.broken (Or.inl rfl) hattempts hpermits.of_succ)
  | ended hphase =>
    rw [taken_eq_nil (by rw [hphase]; simp), effects_eq_nil (by rw [hphase]; rfl)]
    rw [hphase] at hstands
    rw [List.flatMap_nil, List.append_nil, List.append_nil]
    exact advances_of_stands hstands.of_draining

/-- What a sequencer was fed and what it has done: some heights are committed, and
with the others it stands as its phase says. -/
structure Tracked (p : Retry.Policy) (fs : List FetchedBlock) (trace : List Effect)
    (q : Sequencer) : Prop where
  /-- The policy is the one it began with. -/
  policy_eq : q.policy = p
  /-- All that was fed is committed or left. -/
  split : ∃ done rest t es, fs = done ++ rest ∧ trace = t ++ es ∧ Commits p done t ∧
    Stands p q.phase rest es

theorem tracked_start (p : Retry.Policy) (n : ℕ) : Tracked p [] [] (start p n) :=
  ⟨rfl, [], [], [], [], rfl, rfl, .nil, .popping⟩

namespace Tracked

variable {fs : List FetchedBlock} {trace : List Effect}

/-- **Every step keeps the invariant.** -/
theorem step (h : Tracked p fs trace q) (hstep : q.step s signal = some (q', s')) :
    Tracked p (fs ++ (q.taken s signal).flatMap CompletedChunk.blocks)
      (trace ++ q.effects signal) q' := by
  obtain ⟨done, rest, t, es, rfl, rfl, hcommits, hstands⟩ := h.split
  have hstep := step_cases hstep
  obtain ⟨done', rest', t', es', hrest, hes, hcommits', hstands'⟩ :=
    advances_step h.policy_eq hstands hstep
  refine ⟨(policy_step hstep).trans h.policy_eq, done ++ done', rest', t ++ t', es', ?_, ?_,
    hcommits.append hcommits', hstands'⟩
  · rw [List.append_assoc, List.append_assoc, hrest]
  · rw [List.append_assoc, List.append_assoc, hes]

/-- The invariant does not look at what an ended sequencer returns. -/
theorem goTo_exited {result other : Except Failure Unit} (h : Tracked p fs trace q)
    (hphase : q.phase = .exited result) : Tracked p fs trace (q.goTo (.exited other)) := by
  obtain ⟨done, rest, t, es, hfs, htrace, hcommits, hstands⟩ := h.split
  rw [hphase] at hstands
  exact ⟨h.policy_eq, done, rest, t, es, hfs, htrace, hcommits, hstands.of_exited⟩

/-- **What is kept gives the law.** -/
theorem disciplined (h : Tracked p fs trace q) : Disciplined p fs trace := by
  obtain ⟨done, rest, t, es, rfl, rfl, hcommits, hstands⟩ := h.split
  exact hcommits.disciplined hstands.disciplined

end Tracked

/-! ### Runs -/

/-- A run of the sequencer: the chunks that it took out of the buffer, what it did,
and where it stands.  Between its steps everything that it shares may change in any
way, and every outcome of a write is possible. -/
inductive Run (p : Retry.Policy) (n : ℕ) :
    List CompletedChunk → List Effect → Sequencer → Prop where
  /-- It has not begun. -/
  | start : Run p n [] [] (.start p n)
  /-- It takes one more step. -/
  | step {fed : List CompletedChunk} {trace : List Effect} {q q' : Sequencer} {s s' : Shared}
      {signal : SequencerSignal} (hrun : Run p n fed trace q)
      (hstep : q.step s signal = some (q', s')) :
      Run p n (fed ++ q.taken s signal) (trace ++ q.effects signal) q'

variable {n : ℕ} {fed : List CompletedChunk} {trace : List Effect}

/-- Chunks that follow one another hold all heights from the first one on. -/
theorem consecutive_of_isChain {c : CompletedChunk}
    (h : (c :: fed).IsChain fun c d => d.range.first = c.range.last + 1) :
    Consecutive c.range.first ((c :: fed).flatMap CompletedChunk.blocks) := by
  rw [List.flatMap_cons]
  induction fed generalizing c with
  | nil =>
    rw [List.flatMap_nil, List.append_nil]
    exact c.consecutive_blocks
  | cons d fed ih =>
    obtain ⟨hd, hrest⟩ := List.isChain_cons_cons.mp h
    have hnext : c.range.first + c.blocks.length = d.range.first := by
      have hordered := c.range.ordered
      rw [c.length_blocks, hd]
      unfold ChunkRange.size
      omega
    have hlater := ih hrest
    rw [← List.flatMap_cons, ← hnext] at hlater
    exact consecutive_append.mpr ⟨c.consecutive_blocks, hlater⟩

theorem Run.tracked (h : Run p n fed trace q) :
    Tracked p (fed.flatMap CompletedChunk.blocks) trace q := by
  induction h with
  | start => exact tracked_start p n
  | step hrun hstep ih =>
    rw [List.flatMap_append]
    exact ih.step hstep

/-- **Every run is disciplined.**  If the chunks that it is fed follow one another,
then so do their heights; and what is done about these obeys `Disciplined`, where
the writes and the events of a height are those of its block and of its
transactions by number.  What is done is no mere record: wherever a run has come to,
what its next step adds to the trace is what becomes of the store, of the progress
and of those who are told. -/
theorem disciplined_of_run (hrun : Run p n fed trace q)
    (hfed : fed.IsChain fun c d => d.range.first = c.range.last + 1) :
    Disciplined p (fed.flatMap CompletedChunk.blocks) trace ∧
      (∃ first, Consecutive first (fed.flatMap CompletedChunk.blocks)) ∧
      (∀ f ∈ fed.flatMap CompletedChunk.blocks, f.Assembled →
        f.txs.map (fun t => (t.height, t.index))
          = (List.range f.block.txs.length).map fun i => (f.height, i % 0x100000000)) ∧
      ∀ s signal q' s', q.step s signal = some (q', s') →
        s'.ledger = s.ledger.after (q.effects signal) := by
  refine ⟨hrun.tracked.disciplined, ?_, fun f _ => FetchedBlock.numbers_txs,
    fun s signal q' s' => ledger_step⟩
  cases fed with
  | nil => exact ⟨0, rfl⟩
  | cons c fed => exact ⟨c.range.first, consecutive_of_isChain hfed⟩

/-- The second write of a height fails once; the next height is left after an attempt
that fails at its block. -/
theorem disciplined_of_run_cancelled :
    let t : TxResult := ⟨1, 0, "", [], .null⟩
    let f : FetchedBlock := ⟨⟨1, "", "", "", [[]], .null⟩, [t]⟩
    let g : FetchedBlock := ⟨⟨2, "", "", "", [], .null⟩, []⟩
    let c : CompletedChunk := ⟨⟨1, 1, le_rfl⟩, [f], rfl⟩
    let d : CompletedChunk := ⟨⟨2, 2, le_rfl⟩, [g], rfl⟩
    let e : Failure := .ofText "disk full"
    let trace : List Effect := [.wrote (.block f.block) (.ok ()), .wrote (.tx t) (.error e)]
      ++ (BlockIngest.stored f.writes ++ f.closing) ++ [.wrote (.block g.block) (.error e)]
    (∃ q, Run ⟨0, 0, some 2⟩ 1 [c, d] trace q) ∧
      [c, d].IsChain (fun c d => d.range.first = c.range.last + 1) ∧
      Disciplined ⟨0, 0, some 2⟩ [f, g] trace := by
  intro t f g c d e trace
  have hrun : ∃ q, Run ⟨0, 0, some 2⟩ 1 [c, d] trace q := by
    let s (b : Buffer) : Shared :=
      { store := .empty, publisher := .start 1 Nat.one_pos, progress := .ofHeight? none
        telemetry := {}, planner := .start 0 1 Nat.one_pos, buffer := b, shutdown := {} }
    let b (c : CompletedChunk) : Buffer :=
      { Buffer.start c.range.first 1 Nat.one_pos with
        chunks := HeightMap.empty.insert c.range.first c }
    have h₁ := Run.step (.start (p := ⟨0, 0, some 2⟩) (n := 1))
      (rfl : step _ (s (b c)) .turn = some _)
    have h₂ := Run.step h₁ (rfl : step _ (s (b c)) .turn = some _)
    have h₃ := Run.step h₂ (rfl : step _ (s (b c)) (.written (.ok ())) = some _)
    have h₄ := Run.step h₃ (rfl : step _ (s (b c)) (.written (.error e)) = some _)
    have h₅ := Run.step h₄ (rfl : step _ (s (b c)) .elapsed = some _)
    have h₆ := Run.step h₅ (rfl : step _ (s (b c)) (.written (.ok ())) = some _)
    have h₇ := Run.step h₆ (rfl : step _ (s (b d)) (.written (.ok ())) = some _)
    have h₈ := Run.step h₇ (rfl : step _ (s (b d)) .turn = some _)
    have h₉ := Run.step h₈ (rfl : step _ (s (b d)) .turn = some _)
    have h := Run.step h₉ (rfl : step _ (s (b d)) (.written (.error e)) = some _)
    exact ⟨_, Run.step h (rfl :
      step _ { s (b d) with shutdown := ⟨false, true, none⟩ } .cancel = some _)⟩
  have hfed : [c, d].IsChain fun c d => d.range.first = c.range.last + 1 :=
    .cons_cons rfl (.singleton d)
  obtain ⟨q, hrun⟩ := hrun
  exact ⟨⟨q, hrun⟩, hfed, (disciplined_of_run hrun hfed).1⟩

end Sequencer
end BlockIngest
