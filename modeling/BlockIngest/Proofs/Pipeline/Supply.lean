import BlockIngest.Proofs.Buffer.Traffic
import BlockIngest.Proofs.Commit.Trace
import BlockIngest.Proofs.Pipeline.InStep

/-!
# The chunk that is taken out is the expected one

The sequencer checks each chunk that it takes out of the buffer: it must begin at the
height that is committed next.  The check always passes, whatever is put into the buffer
and however large its heights are.

The buffer counts on by the ends of ranges, the sequencer height by height, and both stop
at the top.  They agree because a chunk holds each height of its range: the last height
that the sequencer counts is the end by which the buffer has counted on.  Between two
chunks that has been caught up with, and there is no other way back to the buffer: whoever
leaves a chunk before its end ends altogether, because the run was cancelled or because
the store has failed.

## Main definitions

* `Sequencer.Supplied` — a run of the sequencer while others put chunks into the buffer.
* `Sequencer.catchUp` — the height that is due once some heights were committed.
* `Sequencer.Level` — the invariant.
* `Sequencer.Matched` — the law.

## Main results

* `Sequencer.Level.step` — **every step of the sequencer keeps the invariant.**
* `Sequencer.matched_of_supplied` — **the chunk that is taken out is the expected one.**
-/

namespace BlockIngest
namespace Sequencer

variable {p : Retry.Policy} {n : ℕ} {capacity : ℕ} {q₀ q q' : Sequencer} {s₀ s s' : Shared}
  {signal : SequencerSignal} {fed : List CompletedChunk} {trace : List Effect}
  {b b' : Buffer}

/-! ### The sequencer and those who supply it -/

/-- A run of the sequencer while others put chunks into the buffer: the chunks that it
took out, what it did, where it stands, and what tasks share. -/
inductive Supplied (q₀ : Sequencer) (s₀ : Shared) :
    List CompletedChunk → List Effect → Sequencer → Shared → Prop where
  /-- Nothing has happened. -/
  | start : Supplied q₀ s₀ [] [] q₀ s₀
  /-- Someone goes on with putting a chunk into the buffer. -/
  | pushed {fed : List CompletedChunk} {trace : List Effect} {q : Sequencer} {s : Shared}
      {t : TaskId} {d : CompletedChunk} {call : CallPhase} {answer : CallStep Bool} {b : Buffer}
      (hrun : Supplied q₀ s₀ fed trace q s)
      (hpush : s.buffer.stepPush t d call = some (answer, b)) :
      Supplied q₀ s₀ fed trace q { s with buffer := b }
  /-- Others are at work: anything changes but the chunks in the buffer.  The run may be
  cancelled, and whoever waits for room may give up. -/
  | others {fed : List CompletedChunk} {trace : List Effect} {q : Sequencer} {s s' : Shared}
      (hrun : Supplied q₀ s₀ fed trace q s) (hothers : s.buffer.SameChunks s'.buffer) :
      Supplied q₀ s₀ fed trace q s'
  /-- The sequencer takes one more step. -/
  | step {fed : List CompletedChunk} {trace : List Effect} {q q' : Sequencer} {s s' : Shared}
      {signal : SequencerSignal} (hrun : Supplied q₀ s₀ fed trace q s)
      (hstep : q.step s signal = some (q', s')) :
      Supplied q₀ s₀ (fed ++ q.taken s signal) (trace ++ q.effects signal) q' s'

/-- A run that goes on is a run. -/
theorem Supplied.trans {ds : List CompletedChunk} {es : List Effect}
    (h : Supplied q₀ s₀ fed trace q s) (hlater : Supplied q s ds es q' s') :
    Supplied q₀ s₀ (fed ++ ds) (trace ++ es) q' s' := by
  induction hlater with
  | start =>
    rw [List.append_nil, List.append_nil]
    exact h
  | pushed hrun hpush ih => exact ih.pushed hpush
  | others hrun hothers ih => exact ih.others hothers
  | step hrun hstep ih =>
    rw [← List.append_assoc, ← List.append_assoc]
    exact ih.step hstep

/-! ### The law -/

/-- The sequencer and the buffer agree on what comes next. -/
structure Matched (fed : List CompletedChunk) (trace : List Effect) (q : Sequencer) (s : Shared) :
    Prop where
  /-- While the sequencer looks for a chunk or waits for one, the height that it commits
  next is the one that is due in the buffer. -/
  level : ∀ call, q.phase = .popping call → q.nextCommit = s.buffer.nextCommit
  /-- The chunk that it finds begins there. -/
  expected : ∀ call d b, q.phase = .popping call → s.buffer.take = (some d, b) →
    d.range.first = q.nextCommit
  /-- If it fails, then a height could not be stored. -/
  fails : ∀ e, q.phase = .exited (.error e) → ∃ error, e.kind = .storage error
  /-- It never fails because it was given another chunk than the expected one. -/
  never : ∀ (due : ℕ) (r : ChunkRange), q.phase ≠ .exited (.error (.ofText
    s!"sequencer expected chunk at {due} but received {r.message}"))
  /-- It commits the heights of the chunks that it has taken out, in order, -/
  commits : marks trace <+: fed.flatMap fun d => d.range.heights
  /-- and has committed all of them when it looks for the next one: from one chunk to the
  next, exactly the heights of its range. -/
  round : ∀ call d es q' s' call', q.phase = .popping call → Supplied q s [d] es q' s' →
    q'.phase = .popping call' → marks es = d.range.heights
  /-- It stops before the end of a chunk only if the run is cancelled or it fails. -/
  stops : ∀ signal q' s', q.step s signal = some (q', s') → q.phase.inHand? ≠ none →
    q'.phase.inHand? = none → s.isCancelled ∨ ∃ e, q'.phase = .exited (.error e)
  /-- What a step adds to the trace is what becomes of the store, of the progress and of
  those who are told. -/
  accounts : ∀ signal q' s', q.step s signal = some (q', s') →
    s'.ledger = s.ledger.after (q.effects signal)

/-! ### Counting height by height -/

/-- The height that is due after `n`, once heights were committed one after the other. -/
def catchUp (n : ℕ) (fs : List FetchedBlock) : ℕ := fs.foldl (fun _ f => Height.next f.height) n

/-- Height by height, the sequencer comes to the end of the range. -/
theorem catchUp_blocks (d : CompletedChunk) (n : ℕ) :
    catchUp n d.blocks = Height.next d.range.last := by
  have hordered := d.range.ordered
  have hsize : d.range.size = (d.range.last - d.range.first) + 1 := rfl
  have hlast : d.range.first + (d.range.last - d.range.first) = d.range.last := by omega
  calc catchUp n d.blocks
    _ = (d.blocks.map FetchedBlock.height).foldl (fun _ h => Height.next h) n :=
        List.foldl_map.symm
    _ = (List.range' d.range.first d.range.size).foldl (fun _ h => Height.next h) n := by
        rw [d.heights_eq, ChunkRange.heights]
    _ = Height.next d.range.last := by
        rw [hsize, List.range'_1_concat, List.foldl_append, hlast]
        rfl

/-! ### The invariant -/

/-- What every step keeps: the buffer is where the sequencer will be with all heights in
hand committed. -/
structure Level (q : Sequencer) (b : Buffer) : Prop where
  keyed : ∀ k d, b.chunks.find? k = some d → d.range.first = k
  ahead : ∀ fs, q.phase.inHand? = some fs → b.nextCommit = catchUp q.nextCommit fs
  fails : ∀ e, q.phase = .exited (.error e) → ∃ error, e.kind = .storage error

namespace Level

theorem start (p : Retry.Policy) (n : ℕ) (hcapacity : 0 < capacity) :
    Level (.start p n) (.start n capacity hcapacity) where
  keyed k d h := by cases h
  ahead fs h := by
    cases h
    rfl
  fails e h := by cases h

variable (h : Level q b)
include h

theorem popping {call : CallPhase} (hphase : q.phase = .popping call) :
    b.nextCommit = q.nextCommit :=
  h.ahead [] (by rw [hphase]; rfl)

theorem expected {call : CallPhase} {d : CompletedChunk} (hphase : q.phase = .popping call)
    (htake : b.take = (some d, b')) : d.range.first = q.nextCommit :=
  (h.keyed _ _ (Buffer.take_some htake).1).trans (h.popping hphase)

/-- The buffer and the sequencer stay where they are; nothing new is in hand. -/
theorem same (hkeyed : ∀ k d, b'.chunks.find? k = some d → d.range.first = k)
    (hbuffer : b'.nextCommit = b.nextCommit) (hnext : q'.nextCommit = q.nextCommit)
    (hphase : ∀ fs, q'.phase.inHand? = some fs → q.phase.inHand? = some fs)
    (hfails : ∀ e, q'.phase = .exited (.error e) → ∃ error, e.kind = .storage error) :
    Level q' b' where
  keyed := hkeyed
  ahead fs hfs := by
    rw [hbuffer, hnext]
    exact h.ahead fs (hphase fs hfs)
  fails := hfails

/-- Nothing becomes of the chunks in the buffer. -/
theorem others (hsame : b.SameChunks b') : Level q b' :=
  h.same (hsame.chunks_eq ▸ h.keyed) hsame.nextCommit_eq rfl (fun _ => id) h.fails

/-- A chunk is put into the buffer, or dropped, or has to wait. -/
theorem push {t : TaskId} {d : CompletedChunk} {call : CallPhase} {answer : CallStep Bool}
    (hpush : b.stepPush t d call = some (answer, b')) : Level q b' := by
  rcases Buffer.stepPush_cases hpush with hsame | rfl
  · exact h.others hsame
  · refine h.same (fun k e he => ?_) rfl rfl (fun _ => id) h.fails
    rcases HeightMap.of_find?_insert he with ⟨hk, rfl⟩ | ⟨-, hold⟩
    · exact hk
    · exact h.keyed k e hold

omit h in
/-- A height is begun, or there is none to begin. -/
theorem beginHeight {fs : List FetchedBlock} (s : Shared)
    (hkeyed : ∀ k d, b.chunks.find? k = some d → d.range.first = k)
    (hahead : b.nextCommit = catchUp q.nextCommit fs) : Level (q.beginHeight s fs) b where
  keyed := hkeyed
  ahead gs hgs := by
    cases inHand?_beginHeight hgs
    rw [nextCommit_beginHeight]
    exact hahead
  fails e he := by
    unfold Sequencer.beginHeight at he
    split at he
    · cases he
    · split at he <;> cases he

omit h in
/-- **Every step of the sequencer keeps the invariant.** -/
theorem step (hlevel : Level q s.buffer) (hstep : Step q s signal q' s') :
    Level q' s'.buffer := by
  have hnone : ∀ {fs}, (none : Option (List FetchedBlock)) = some fs → q.phase.inHand? = some fs :=
    fun hfs => by cases hfs
  cases hstep with
  | listened hphase =>
    have hsame := s.buffer.same_listen .sequencer
    exact hlevel.same (hsame.chunks_eq ▸ hlevel.keyed) hsame.nextCommit_eq rfl
      (fun fs hfs => by rw [hphase]; exact hfs) (fun e he => by cases he)
  | @took d b hphase hrun htake hfirst =>
    obtain ⟨-, rfl⟩ := Buffer.take_some htake
    refine .beginHeight s (fun k e he => hlevel.keyed k e (HeightMap.of_find?_erase he).2) ?_
    exact (catchUp_blocks d q.nextCommit).symm
  | brokeOff hphase hrun htake hfirst =>
    -- the chunk that is taken out is the one that is expected
    exact absurd (hlevel.expected hphase htake) hfirst
  | missed hphase hrun htake =>
    cases Buffer.take_none htake
    exact hlevel.same hlevel.keyed rfl rfl (fun fs hfs => by rw [hphase]; exact hfs)
      (fun e he => by cases he)
  | woke hphase | retried hphase =>
    exact hlevel.same hlevel.keyed rfl rfl (fun fs hfs => by rw [hphase]; exact hfs)
      (fun e he => by cases he)
  | wrote hpending | paused hpending =>
    exact hlevel.same hlevel.keyed rfl rfl
      (fun fs hfs => by rw [inHand?_of_pending hpending]; exact hfs) (fun e he => by cases he)
  | @stored job w hpending =>
    -- the first height in hand is the one that was counted
    exact .beginHeight _ hlevel.keyed (hlevel.ahead _ (inHand?_of_pending hpending))
  | @gaveUp job w later e failure error =>
    refine hlevel.same hlevel.keyed rfl rfl (fun _ => hnone) (fun e he => ⟨error, ?_⟩)
    cases he
    unfold Shutdown.storageFailed Shutdown.capture
    split <;> rfl
  | left | stopped =>
    exact hlevel.same hlevel.keyed rfl rfl (fun _ => hnone) (fun e he => by cases he)
  | ended =>
    exact hlevel.same (fun k d hd => by cases hd) rfl rfl (fun _ => hnone)
      (fun e he => by cases he)

end Level

/-! ### From the invariant to the law -/

namespace Supplied

theorem level (hrun : Supplied q₀ s₀ fed trace q s) (hstart : Level q₀ s₀.buffer) :
    Level q s.buffer := by
  induction hrun with
  | start => exact hstart
  | pushed hrun hpush ih => exact ih.push hpush
  | others hrun hothers ih => exact ih.others hothers
  | step hrun hstep ih => exact ih.step (step_cases hstep)

theorem tracked (hrun : Supplied (.start p n) s₀ fed trace q s) :
    Tracked p (fed.flatMap CompletedChunk.blocks) trace q := by
  induction hrun with
  | start => exact tracked_start p n
  | pushed hrun hpush ih => exact ih
  | others hrun hothers ih => exact ih
  | step hrun hstep ih =>
    rw [List.flatMap_append]
    exact ih.step hstep

end Supplied

theorem heights_flatMap (fed : List CompletedChunk) :
    (fed.flatMap CompletedChunk.blocks).map FetchedBlock.height
      = fed.flatMap fun d => d.range.heights := by
  rw [List.map_flatMap]
  exact congrArg (fed.flatMap ·) (funext CompletedChunk.heights_eq)

/-- What it has committed are the first of the heights that it was fed. -/
theorem Tracked.marks_prefix (h : Tracked p (fed.flatMap CompletedChunk.blocks) trace q) :
    marks trace <+: fed.flatMap fun d => d.range.heights := by
  obtain ⟨done, rest, hsplit, hmarks, -⟩ := h.tells
  rw [← heights_flatMap, hsplit, hmarks, List.map_append]
  exact List.prefix_append _ _

/-- While it looks for a chunk, it has committed all of them. -/
theorem Tracked.marks_eq (h : Tracked p (fed.flatMap CompletedChunk.blocks) trace q)
    {call : CallPhase} (hphase : q.phase = .popping call) :
    marks trace = fed.flatMap fun d => d.range.heights := by
  obtain ⟨done, rest, t, es, hfed, rfl, hcommits, hstands⟩ := h.split
  rw [hphase] at hstands
  obtain ⟨rfl, rfl⟩ := hstands.of_popping
  rw [List.append_nil] at hfed ⊢
  rw [hcommits.tells.marks_eq, ← hfed, heights_flatMap]

/-- Whoever stops with heights in hand does so because the run is cancelled, or fails. -/
theorem stops_step (hstep : Step q s signal q' s') (hhand : q.phase.inHand? ≠ none)
    (hnone : q'.phase.inHand? = none) : s.isCancelled ∨ ∃ e, q'.phase = .exited (.error e) := by
  have hbegin : ∀ {q : Sequencer} {s : Shared} {fs : List FetchedBlock},
      (q.beginHeight s fs).phase.inHand? = none → s.isCancelled := by
    intro q s fs hnone
    unfold beginHeight at hnone
    split at hnone
    · cases hnone
    · split at hnone
      · assumption
      · cases hnone
  cases hstep with
  | listened | missed | woke | wrote | paused | retried => cases hnone
  | took => exact Or.inl (hbegin hnone)
  | stored => exact Or.inl (hbegin hnone)
  | brokeOff | gaveUp => exact Or.inr ⟨_, rfl⟩
  | left hphase hcancel | stopped hphase hcancel => exact Or.inl hcancel
  | ended hphase =>
    rw [hphase] at hhand
    exact absurd rfl hhand

/-- **The chunk that is taken out is the expected one.**  Whatever is put into the buffer,
whatever comes of the writes, and whenever the run is cancelled: if the buffer and the
sequencer begin at one height, they obey `Matched`. -/
theorem matched_of_supplied (hcapacity : 0 < capacity)
    (hbuffer : s₀.buffer = .start n capacity hcapacity)
    (hrun : Supplied (.start p n) s₀ fed trace q s) : Matched fed trace q s := by
  have hlevel : Level q s.buffer := hrun.level (hbuffer ▸ .start p n hcapacity)
  constructor
  case level => exact fun call hphase => (hlevel.popping hphase).symm
  case expected => exact fun call d b hphase htake => hlevel.expected hphase htake
  case fails => exact hlevel.fails
  case never =>
    intro due r hphase
    obtain ⟨error, hkind⟩ := hlevel.fails _ hphase
    cases hkind
  case commits => exact hrun.tracked.marks_prefix
  case round =>
    intro call d es q' s' call' hphase hlater hphase'
    -- what was committed before and after it are the heights of all chunks
    have hbefore := hrun.tracked.marks_eq hphase
    have hafter := (hrun.trans hlater).tracked.marks_eq hphase'
    rw [marks_append, hbefore, List.flatMap_append, List.flatMap_singleton] at hafter
    exact List.append_cancel_left hafter
  case stops => exact fun signal q' s' hstep => stops_step (step_cases hstep)
  case accounts => exact fun signal q' s' => ledger_step

/-- A chunk that ends at the top.  The first attempt at its last height fails; then all of
it is committed, and neither the buffer nor the sequencer counts any further. -/
theorem matched_of_supplied_top :
    let d : CompletedChunk := .bare ⟨Height.top - 1, Height.top, by decide⟩
    ∃ s₀ trace q s, 0 < 1 ∧ s₀.buffer = .start (Height.top - 1) 1 Nat.one_pos ∧
      Supplied (.start ⟨0, 0, some 2⟩ (Height.top - 1)) s₀ [d] trace q s ∧ Matched [d] trace q s ∧
      q.phase = .popping .fresh ∧ marks trace = [Height.top - 1, Height.top] ∧
      q.nextCommit = Height.top ∧ s.buffer.nextCommit = Height.top := by
  intro d
  let q₀ : Sequencer := .start ⟨0, 0, some 2⟩ (Height.top - 1)
  let s₀ : Shared :=
    { store := .empty, publisher := .start 1 Nat.one_pos, progress := .ofHeight? none
      telemetry := {}, planner := .start 0 2 Nat.two_pos, shutdown := {}
      buffer := .start (Height.top - 1) 1 Nat.one_pos }
  have hrun : ∃ trace q s, Supplied q₀ s₀ [d] trace q s ∧ q.phase = .popping .fresh ∧
      marks trace = [Height.top - 1, Height.top] ∧ s.buffer.nextCommit = Height.top := by
    have h₀ : Supplied q₀ s₀ [] [] q₀ s₀ := .start
    have h₁ := h₀.pushed (rfl : Buffer.stepPush _ (.visitor 0) d .fresh = some _)
    have h₂ := h₁.pushed (rfl : Buffer.stepPush _ (.visitor 0) d .looking = some _)
    have h₃ := h₂.step (rfl : step _ _ .turn = some _)
    have h₄ := h₃.step (rfl : step _ _ .turn = some _)
    have h₅ := h₄.step (rfl : step _ _ (.written (.ok ())) = some _)
    have h₆ := h₅.step (rfl : step _ _ (.written (.error (.ofText "busy"))) = some _)
    have h₇ := h₆.step (rfl : step _ _ .elapsed = some _)
    exact ⟨_, _, _, h₇.step (rfl : step _ _ (.written (.ok ())) = some _), rfl, rfl, rfl⟩
  obtain ⟨trace, q, s, hrun, hphase, hmarks, hnext⟩ := hrun
  have hmatched := matched_of_supplied Nat.one_pos rfl hrun
  exact ⟨s₀, trace, q, s, Nat.one_pos, rfl, hrun, hmatched, hphase, hmarks,
    (hmatched.level _ hphase).trans hnext, hnext⟩

end Sequencer
end BlockIngest
