import BlockIngest.Proofs.Pipeline.Placement

/-!
# The sequencer and the buffer keep in step

The buffer and the sequencer each keep the height that comes next.  While the
sequencer looks for a chunk the two are the same; once a chunk was taken out, the
buffer is ahead by the heights of that chunk that are not committed yet.  Therefore
the chunk that is taken out is always the one that the sequencer expects, and the
buffer is never ahead by more than a chunk.

## Main definitions

* `SequencerPhase.inHand?` — the heights that were taken out and are not committed.
* `Sequencer.InStep` — the invariant.

## Main results

* `Sequencer.InStep.step` — **a step of the sequencer keeps it in step.**
* `History.Sound.inStep_move` — **so does every move.**
-/

namespace BlockIngest

/-- The heights that were taken out of the buffer and are not committed, as long as the
sequencer goes on with them. -/
def SequencerPhase.inHand? : SequencerPhase → Option (List FetchedBlock)
  | .popping _ => some []
  | .savingBlock job => some (job.current :: job.later)
  | .savingTx job _ _ => some (job.current :: job.later)
  | .pausing job _ => some (job.current :: job.later)
  | .draining => none
  | .exited _ => none

namespace Sequencer

/-- The buffer is ahead of the sequencer by the heights in hand, and never by more than
`size`. -/
structure InStep (size : ℕ) (b : Buffer) (q : Sequencer) : Prop where
  le : q.nextCommit ≤ b.nextCommit
  ahead : b.nextCommit ≤ q.nextCommit + size
  hand : ∀ fs, q.phase.inHand? = some fs →
    Consecutive q.nextCommit fs ∧ b.nextCommit = q.nextCommit + fs.length

variable {size : ℕ} {b b' : Buffer} {q q' : Sequencer} {s s' : Shared} {signal : SequencerSignal}

theorem inHand?_of_pending {job : CommitJob} {w : Write} {later : List TxResult}
    {phase : SequencerPhase} (h : phase.pending? = some (job, w, later)) :
    phase.inHand? = some (job.current :: job.later) := by
  cases phase <;> cases h <;> rfl

/-- What is begun is in hand, unless the run is cancelled. -/
theorem inHand?_beginHeight {fs gs : List FetchedBlock}
    (h : (q.beginHeight s fs).phase.inHand? = some gs) : gs = fs := by
  unfold beginHeight at h
  split at h
  · cases h
    rfl
  · split at h
    · cases h
    · cases h
      rfl

theorem nextCommit_beginHeight (q : Sequencer) (s : Shared) (fs : List FetchedBlock) :
    (q.beginHeight s fs).nextCommit = q.nextCommit := by
  unfold beginHeight
  split
  · rfl
  · split <;> rfl

namespace InStep

theorem same (h : q.InStep size b) (hbuffer : b'.nextCommit = b.nextCommit)
    (hnext : q'.nextCommit = q.nextCommit)
    (hphase : q'.phase.inHand? = q.phase.inHand? ∨ q'.phase.inHand? = none) :
    q'.InStep size b' := by
  refine ⟨?_, ?_, fun fs hfs => ?_⟩
  · rw [hbuffer, hnext]
    exact h.le
  · rw [hbuffer, hnext]
    exact h.ahead
  · rw [hbuffer, hnext]
    rcases hphase with hsame | hnone
    · exact h.hand fs (hsame ▸ hfs)
    · rw [hnone] at hfs
      cases hfs

theorem popping (h : q.InStep size b) {call : CallPhase} (hphase : q.phase = .popping call) :
    b.nextCommit = q.nextCommit :=
  (h.hand [] (by rw [hphase]; rfl)).2

/-- The chunk that is expected is taken out, and is in hand. -/
theorem take {d : CompletedChunk} (hfirst : d.range.first = q.nextCommit)
    (hsize : d.range.size ≤ size) (hnext : b.nextCommit = d.range.last + 1) (s : Shared) :
    (q.beginHeight s d.blocks).InStep size b := by
  have hordered := d.range.ordered
  have hlength : d.range.size = d.range.last - d.range.first + 1 := rfl
  have hsum : b.nextCommit = q.nextCommit + d.range.size := by omega
  rw [← d.length_blocks] at hsum hsize
  refine ⟨?_, ?_, fun fs hfs => ?_⟩
  · rw [nextCommit_beginHeight]
    omega
  · rw [nextCommit_beginHeight]
    omega
  · cases inHand?_beginHeight hfs
    rw [nextCommit_beginHeight]
    exact ⟨hfirst ▸ d.consecutive_blocks, hsum⟩

/-- The first height in hand is committed. -/
theorem store (h : q.InStep size b) {job : CommitJob} {w : Write}
    (hpending : q.phase.pending? = some (job, w, [])) (htop : b.nextCommit ≤ Height.top)
    (s : Shared) :
    (q.heightStored s job).1.InStep size b ∧
      (q.heightStored s job).1.nextCommit = q.nextCommit + 1 := by
  obtain ⟨hheights, hnext⟩ := h.hand _ (inHand?_of_pending hpending)
  obtain ⟨hfirst, hlater⟩ := consecutive_cons.mp hheights
  rw [List.length_cons] at hnext
  have hahead := h.ahead
  have hstored : (q.heightStored s job).1.nextCommit = q.nextCommit + 1 := by
    refine (nextCommit_beginHeight _ _ _).trans ?_
    rw [hfirst]
    exact Height.next_of_lt (by omega)
  refine ⟨⟨?_, ?_, fun fs hfs => ?_⟩, hstored⟩
  · omega
  · omega
  · cases inHand?_beginHeight hfs
    rw [hstored]
    exact ⟨hlater, by omega⟩

end InStep

/-- **A step of the sequencer keeps it in step**, and it never goes back. -/
theorem InStep.step {low : ℕ} {c : Custody} (h : q.InStep size s.buffer)
    (hsound : c.Sound low size s) (hstep : Step q s signal q' s') :
    q'.InStep size s'.buffer ∧ q.nextCommit ≤ q'.nextCommit := by
  have hcursor := hsound.tracked.cursor_le_top
  cases hstep with
  | listened hphase =>
    exact ⟨h.same (s.buffer.same_listen _).nextCommit_eq rfl (Or.inl (by rw [hphase]; rfl)), le_rfl⟩
  | @took d b hphase hrun htake hfirst =>
    obtain ⟨hfind, rfl⟩ := Buffer.take_some htake
    have hissued := hsound.issued_of_accepted (Custody.accepted_of_find? hfind)
    have hlast := (hsound.tracked.bounds hissued).2
    have hnext : Height.next d.range.last = d.range.last + 1 := Height.next_of_lt (by omega)
    exact ⟨.take hfirst (hsound.tracked.size_le _ hissued) hnext s,
      (nextCommit_beginHeight _ _ _).ge⟩
  | brokeOff hphase hrun htake hfirst =>
    -- the chunk that is taken out is the one that is expected
    obtain ⟨hfind, -⟩ := Buffer.take_some htake
    exact absurd ((hsound.keyed _ _ hfind).trans (h.popping hphase)) hfirst
  | missed hphase hrun htake =>
    cases Buffer.take_none htake
    exact ⟨h.same rfl rfl (Or.inl (by rw [hphase]; rfl)), le_rfl⟩
  | woke hphase => exact ⟨h.same rfl rfl (Or.inl (by rw [hphase]; rfl)), le_rfl⟩
  | left | gaveUp | stopped => exact ⟨h.same rfl rfl (Or.inr rfl), le_rfl⟩
  | ended => exact ⟨h.same rfl rfl (Or.inr rfl), le_rfl⟩
  | wrote hpending | paused hpending =>
    exact ⟨h.same rfl rfl (Or.inl (inHand?_of_pending hpending).symm), le_rfl⟩
  | @stored job w hpending =>
    have hle := hsound.nextCommit_le_cursor
    rw [← hsound.planner_eq] at hle
    obtain ⟨hstep, hnext⟩ := h.store hpending (hle.trans hcursor) { s with store := w.put s.store }
    exact ⟨hstep, by omega⟩
  | retried hphase => exact ⟨h.same rfl rfl (Or.inl (by rw [hphase]; rfl)), le_rfl⟩

end Sequencer

/-- **Every move keeps the sequencer and the buffer in step**, and what is committed next
never goes back. -/
theorem History.Sound.inStep_move {low size : ℕ} {x : History} {w' : World} {m : Move}
    (hsound : Sound low size x) (h : x.world.sequencer.InStep size x.world.shared.buffer)
    (hmove : x.world.Moved m w') :
    w'.sequencer.InStep size w'.shared.buffer ∧
      x.world.sequencer.nextCommit ≤ w'.sequencer.nextCommit := by
  cases hmove with
  | @worker id phase next signal s hphase hstep =>
    rw [World.buffer_attended]
    exact ⟨h.same (Worker.nextCommit_step hstep) rfl (Or.inl rfl), le_rfl⟩
  | @sequencer signal q s hstep =>
    obtain ⟨hq, hle⟩ := h.step hsound.custody hstep
    have hnext := World.nextCommit_closed x.world.settings q s
    rw [World.buffer_closed]
    refine ⟨hq.same rfl hnext ?_, hle.trans hnext.ge⟩
    rcases World.phase_closed x.world.settings q s with hphase | ⟨result, other, -, hphase⟩
    · exact Or.inl (congrArg SequencerPhase.inHand? hphase)
    · exact Or.inr (congrArg SequencerPhase.inHand? hphase)
  | @heard answer => cases answer <;> exact ⟨h, le_rfl⟩
  | refreshed | cancelRun | cancelRoot => exact ⟨h, le_rfl⟩

end BlockIngest
