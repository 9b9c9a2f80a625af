import BlockIngest.Pipeline.Refresher
import BlockIngest.Proofs.Buffer.Operations
import BlockIngest.Proofs.Commit.Step
import BlockIngest.Proofs.Pipeline.Chain
import BlockIngest.Proofs.Planner.Operations

/-!
# What tasks pass to each other is the chain's

As long as the node answers with one chain, everything that the tasks of a run
hand to each other comes from that chain: the ranges end below the top, a chunk
that a worker hands to the buffer holds the heights that the chain has, and the
buffer keeps it at its lowest height.  Workers and the refresher change nothing
else that matters for what is committed: neither the ledger nor the height that is
due.

## Main definitions

* `Planner.Low`, `Chain.Covers`, `Chain.Serves` — what is handed out, what is handed
  on, and what a worker holds.
* `Shared.Sound` — the invariant of what tasks share.

## Main results

* `Worker.sound_step`, `Refresher.sound_step` — **a step keeps it**, and changes
  nothing that outlives the run but the counters.
-/

namespace BlockIngest

/-! ### The planner -/

/-- The planner hands out no range that reaches the top. -/
structure Planner.Low (p : Planner) : Prop where
  /-- The head is below the top. -/
  head_lt : ∀ h, p.head = some h → h < Height.top
  /-- So are the ranges that were released. -/
  released_lt : ∀ k r, p.released.find? k = some r → r.last < Height.top

namespace Planner.Low

variable {p : Planner} {r : ChunkRange}

theorem observe (h : p.Low) {head : ℕ} (hhead : head < Height.top) : (p.observe head).2.Low := by
  obtain ⟨-, -, -, hreleased⟩ := sameRanges_observe p head
  constructor
  · intro k hk
    rcases head_observe p head with heq | heq
    · exact h.head_lt k (heq ▸ hk)
    · have hkey : some head = some k := heq.symm.trans hk
      cases hkey
      exact hhead
  · rw [hreleased]
    exact h.released_lt

theorem release (h : p.Low) (hr : r.last < Height.top) : (p.release r).2.Low := by
  by_cases hclaimed : p.claimed.find? r.first = some r
  · rw [release_claimed hclaimed]
    refine ⟨h.head_lt, fun k s hs => ?_⟩
    rw [HeightMap.find?_insert] at hs
    split at hs
    · cases hs
      exact hr
    · exact h.released_lt k s hs
  · rw [release_unclaimed hclaimed]
    exact h

theorem complete (h : p.Low) (r : ChunkRange) : (p.complete r).2.Low := by
  by_cases hclaimed : p.claimed.find? r.first = some r
  · rw [complete_claimed hclaimed]
    exact ⟨h.head_lt, h.released_lt⟩
  · rw [complete_unclaimed hclaimed]
    exact h

theorem last_lt (h : p.Low) (hr : p.next.1 = some r) : r.last < Height.top := by
  -- it was released before, or it ends at the head at the latest
  rcases reissue?_or_fresh?_of_next hr with hre | ⟨-, hfr⟩
  · obtain ⟨⟨k, hfirst⟩, -⟩ := reissue?_eq_some hre
    exact h.released_lt k r (HeightMap.find?_of_first? hfirst)
  · obtain ⟨-, -, head, hhead, hlast⟩ := fresh?_eq_some hfr
    have hlt := h.head_lt head hhead
    omega

theorem next (h : p.Low) : p.next.2.Low := by
  rcases hre : p.reissue? with _ | r
  · rcases hfr : p.fresh? with _ | r
    · rw [next_of_none hre hfr]
      exact h
    · rw [next_of_fresh? hre hfr]
      exact ⟨h.head_lt, h.released_lt⟩
  · rw [next_of_reissue? hre]
    refine ⟨h.head_lt, fun k s hs => ?_⟩
    exact h.released_lt k s (HeightMap.of_find?_erase hs).2

end Planner.Low

theorem Planner.low_start (low size : ℕ) (hsize : 0 < size) : (start low size hsize).Low := by
  constructor
  · intro k hk
    cases hk
  · intro k r hr
    cases hr

/-! ### What is handed on -/

namespace Chain

variable {c : Chain}

/-- A chunk holds heights of the chain, and ends below the top. -/
def Covers (c : Chain) (d : CompletedChunk) : Prop :=
  d.range.last < Height.top ∧ ∀ f ∈ d.blocks, c.Holds f

/-- What a worker has fetched so far is of the chain, and its range ends below the
top. -/
def ServesJob (c : Chain) (j : FetchJob) : Prop :=
  j.range.last < Height.top ∧ ∀ f ∈ j.fetched, c.Holds f

/-- What a worker holds in a phase is of the chain. -/
def Serves (c : Chain) : WorkerPhase → Prop
  | .awaitingBlock j => c.ServesJob j
  | .awaitingResults j b => c.ServesJob j ∧ b = c.block j.height ∧ b.height = j.height
  | .pausing j _ => c.ServesJob j
  | .submitting d _ => c.Covers d
  | _ => True

theorem ServesJob.add {j : FetchJob} {f : FetchedBlock} (h : c.ServesJob j) (hf : c.Holds f) :
    c.ServesJob (j.add f) := by
  refine ⟨h.1, fun g hg => ?_⟩
  rcases List.mem_append.mp hg with hg | hg
  · exact h.2 g hg
  · rw [List.mem_singleton.mp hg]
    exact hf

theorem serves_fetched {j : FetchJob} (h : c.ServesJob j) : c.Serves (Worker.fetched j) := by
  unfold Worker.fetched
  split
  · next d hmake =>
    obtain ⟨hrange, hblocks⟩ := CompletedChunk.range_of_make hmake
    exact ⟨hrange ▸ h.1, hblocks ▸ h.2⟩
  · trivial

end Chain

/-- What tasks share is of the chain, and the chunk from `due` on is committed
next. -/
structure Shared.Sound (c : Chain) (due : ℕ) (s : Shared) : Prop where
  /-- No range reaches the top. -/
  planner : s.planner.Low
  /-- Chunks are kept by their lowest height. -/
  chunks : ∀ k d, s.buffer.chunks.find? k = some d → d.range.first = k ∧ c.Covers d
  /-- The height that is due. -/
  due_eq : s.buffer.nextCommit = due

/-- What tasks share before and after a step of a task that commits nothing. -/
structure Shared.Keeps (c : Chain) (due : ℕ) (s s' : Shared) : Prop where
  /-- The invariant is kept. -/
  sound : s'.Sound c due
  /-- Nothing that outlives the run is changed but the counters. -/
  ledger_eq : s'.ledger = s.ledger

namespace Shared

variable {c : Chain} {due : ℕ} {s s' : Shared} {r : ChunkRange}

theorem Sound.keeps (h : s.Sound c due) : Keeps c due s s := ⟨h, rfl⟩

theorem Keeps.trans {s'' : Shared} (h : Keeps c due s s') (h' : Keeps c due s' s'') :
    Keeps c due s s'' :=
  ⟨h'.sound, h'.ledger_eq.trans h.ledger_eq⟩

namespace Sound

variable (h : s.Sound c due)
include h

theorem withPlanner {p : Planner} (hp : p.Low) : Keeps c due s { s with planner := p } :=
  ⟨⟨hp, h.chunks, h.due_eq⟩, rfl⟩

theorem withTelemetry (t : Telemetry) : Keeps c due s { s with telemetry := t } :=
  ⟨⟨h.planner, h.chunks, h.due_eq⟩, rfl⟩

/-- Listening, forgetting and announcing change no chunk. -/
theorem withBuffer {b : Buffer} (hchunks : b.chunks = s.buffer.chunks)
    (hdue : b.nextCommit = s.buffer.nextCommit) : Keeps c due s { s with buffer := b } :=
  ⟨⟨h.planner, hchunks ▸ h.chunks, hdue.trans h.due_eq⟩, rfl⟩

theorem observe {head : ℕ} (hhead : head < Height.top) : Keeps c due s (s.observe head) :=
  h.withPlanner (h.planner.observe hhead)

theorem giveBack (hr : r.last < Height.top) : Keeps c due s (s.giveBack r) :=
  h.withPlanner (h.planner.release hr)

theorem giveUp (hr : r.last < Height.top) : Keeps c due s (s.giveUp r) := by
  have hlow := h.planner.release hr
  unfold Shared.giveUp
  rcases hrelease : s.planner.release r with ⟨_ | _, p⟩
  · rw [hrelease] at hlow
    exact h.withPlanner hlow
  · rw [hrelease] at hlow
    have hkeeps := h.withPlanner hlow
    exact hkeeps.trans (hkeeps.sound.withTelemetry _)

theorem settle (r : ChunkRange) : Keeps c due s (s.settle r) := by
  have hkeeps := h.withPlanner (h.planner.complete r)
  exact hkeeps.trans (hkeeps.sound.withTelemetry _)

/-- A chunk that is offered is kept at its lowest height, or not at all. -/
theorem offer {d : CompletedChunk} (hd : c.Covers d) :
    Keeps c due s { s with buffer := (s.buffer.offer d).2 } := by
  unfold Buffer.offer
  split
  · refine ⟨⟨h.planner, fun k e he => ?_, h.due_eq⟩, rfl⟩
    have he' : (s.buffer.chunks.insert d.range.first d).find? k = some e := he
    rcases HeightMap.of_find?_insert he' with ⟨hk, rfl⟩ | ⟨-, hold⟩
    · exact ⟨hk, hd⟩
    · exact h.chunks k e hold
  · exact h.keeps

end Sound
end Shared

/-! ### Steps of workers -/

namespace Worker

open Shared

variable {c : Chain} {due : ℕ} {s : Shared} {settings : Settings} {id : ℕ}

/-- What a step of a worker leaves behind. -/
def Leaves (c : Chain) (due : ℕ) (s : Shared) (out : WorkerPhase × Shared) : Prop :=
  Keeps c due s out.2 ∧ c.Serves out.1

theorem leaves_attemptFailed {job : FetchJob} {e : Failure} (h : s.Sound c due)
    (hjob : c.ServesJob job) (he : Failure.Bounded e) : Leaves c due s (attemptFailed s job e) := by
  unfold attemptFailed
  split
  · next k hk =>
    -- the node is one below the height that it does not have
    have htop : 0 < Height.top := by decide
    have hprev : Height.prev k < Height.top := by
      have hle := he k hk
      unfold Height.prev
      omega
    have hkeeps := h.observe hprev
    exact ⟨hkeeps.trans (hkeeps.sound.giveUp hjob.1), trivial⟩
  · have hkeeps := h.withTelemetry (countFailure e s.telemetry)
    simp only
    split
    · exact ⟨hkeeps, hjob⟩
    · exact ⟨hkeeps.trans (hkeeps.sound.giveUp hjob.1), trivial⟩

/-- Outcomes that do not fit a block say nothing about the head. -/
theorem bounds_of_assemble {b : Block} {r : BlockResults} {e : RpcError}
    (h : FetchedBlock.assemble b r = .error e) : Failure.Bounded (.ofRpc e) := by
  unfold FetchedBlock.assemble at h
  split at h
  · cases h
    intro k hk
    cases hk
  · split at h
    · cases h
      intro k hk
      cases hk
    · cases h

theorem leaves_seek (h : s.Sound c due) : Leaves c due s (seek settings s) := by
  unfold seek
  split
  · exact ⟨h.keeps, trivial⟩
  · have hkeeps := h.withPlanner h.planner.next
    have hclaim : s.claim = (s.planner.next.1, { s with planner := s.planner.next.2 }) := rfl
    rw [hclaim]
    rcases hnext : s.planner.next.1 with _ | r
    · exact ⟨hkeeps, trivial⟩
    · refine ⟨hkeeps, ?_⟩
      -- the job that begins has fetched nothing so far
      simp only [takeUp]
      split
      · exact ⟨h.planner.last_lt hnext, fun f hf => absurd hf List.not_mem_nil⟩
      · trivial

theorem leaves_abandon {r : ChunkRange} (h : s.Sound c due) (hr : r.last < Height.top) :
    Leaves c due s (abandon s r) :=
  ⟨h.giveBack hr, trivial⟩

theorem leaves_blockArrived {job : FetchJob} (h : s.Sound c due) (hjob : c.ServesJob job) :
    Leaves c due s (blockArrived s job (c.block job.height)) := by
  unfold blockArrived
  split
  · refine leaves_attemptFailed h hjob fun k hk => ?_
    cases hk
  · next hheight => exact ⟨h.keeps, hjob, rfl, Decidable.of_not_not hheight⟩

theorem leaves_resultsArrived {job : FetchJob} (h : s.Sound c due) (hjob : c.ServesJob job)
    (hheight : (c.block job.height).height = job.height) :
    Leaves c due s (resultsArrived s job (c.block job.height) (c.results job.height)) := by
  unfold resultsArrived
  rcases hassemble : FetchedBlock.assemble (c.block job.height) (c.results job.height) with e | f
  · exact leaves_attemptFailed h hjob (bounds_of_assemble hassemble)
  · have hadd := hjob.add (Chain.holds_of_assemble hheight hassemble)
    simp only
    split
    · exact ⟨h.keeps, Chain.serves_fetched hadd⟩
    · exact ⟨h.keeps, hadd⟩

/-- A chunk that is handed on goes into the buffer or stays with the worker. -/
theorem leaves_submit {d : CompletedChunk} {call : CallPhase} {out : WorkerPhase × Shared}
    (h : s.Sound c due) (hd : c.Covers d) (hout : submit id s d call = some out) :
    Leaves c due s out := by
  cases call with
  | fresh =>
    cases hout
    obtain ⟨hchunks, hdue, -⟩ := s.buffer.same_listen (.worker id)
    exact ⟨h.withBuffer hchunks hdue, hd⟩
  | looking =>
    -- a stale chunk is dropped and its range is done as if it had been let in
    have hoffer := h.offer hd
    rcases hanswer : s.buffer.offer d with ⟨_ | _ | _, b⟩
    all_goals
      simp only [submit, Buffer.stepPush, hanswer] at hout
      cases hout
      rw [hanswer] at hoffer
    · have hkeeps := hoffer.trans (hoffer.sound.withBuffer (b := b.forget (.worker id)) rfl rfl)
      exact ⟨hkeeps.trans (hkeeps.sound.settle _), trivial⟩
    · have hkeeps := hoffer.trans (hoffer.sound.withBuffer (b := b.forget (.worker id)) rfl rfl)
      exact ⟨hkeeps.trans (hkeeps.sound.settle _), trivial⟩
    · exact ⟨hoffer, hd⟩
  | waiting =>
    unfold submit Buffer.stepPush at hout
    by_cases htold : s.buffer.isListening (.worker id)
    · simp only [htold, if_true] at hout
      cases hout
    · simp only [htold] at hout
      cases hout
      exact ⟨h.keeps, hd⟩

theorem leaves_cancel {phase : WorkerPhase} {out : WorkerPhase × Shared} (h : s.Sound c due)
    (hphase : c.Serves phase) (hout : cancel id s phase = some out) : Leaves c due s out := by
  cases phase with
  | ready | exited => cases hout
  | idle =>
    cases hout
    exact ⟨h.keeps, trivial⟩
  | awaitingBlock job | pausing job =>
    cases hout
    exact leaves_abandon h hphase.1
  | awaitingResults job b =>
    cases hout
    exact leaves_abandon h hphase.1.1
  | submitting d call =>
    cases hout
    have hforget := h.withBuffer (b := s.buffer.forget (.worker id)) rfl rfl
    exact ⟨hforget.trans (hforget.sound.giveBack hphase.1), trivial⟩

/-- **A step of a worker keeps what tasks share sound**, if the answers that it gets
are the chain's. -/
theorem sound_step {phase : WorkerPhase} {signal : WorkerSignal} {out : WorkerPhase × Shared}
    (h : s.Sound c due) (hphase : c.Serves phase) (hanswers : c.Answers phase signal)
    (hout : step settings id s phase signal = some out) : Leaves c due s out := by
  unfold step at hout
  split at hout
  case h_1 =>
    cases hout
    exact leaves_seek h
  case h_2 =>
    cases hout
    exact ⟨h.keeps, trivial⟩
  case h_3 job b =>
    cases hout
    cases hanswers
    exact leaves_blockArrived h hphase
  case h_4 job e =>
    cases hout
    exact leaves_attemptFailed h hphase hanswers
  case h_5 | h_8 =>
    cases hout
    exact ⟨h.keeps, trivial⟩
  case h_6 job b r =>
    cases hout
    cases hanswers
    obtain ⟨hjob, rfl, hheight⟩ := hphase
    exact leaves_resultsArrived h hjob hheight
  case h_7 job b e =>
    cases hout
    exact leaves_attemptFailed h hphase.1 hanswers
  case h_9 job length =>
    cases hout
    split
    · exact leaves_abandon h hphase.1
    · exact ⟨h.keeps, hphase.1, fun f hf => absurd hf List.not_mem_nil⟩
  case h_10 d call => exact leaves_submit h hphase hout
  case h_11 =>
    split at hout
    · exact leaves_cancel h hphase hout
    · cases hout
  case h_12 => cases hout

end Worker

/-! ### Steps of the refresher -/

/-- Whether an answer about the head is below the top. -/
def Refresher.Bounded (answer : Except Failure ℕ) : Prop := ∀ h, answer = .ok h → h < Height.top

namespace Refresher

variable {c : Chain} {due : ℕ} {s : Shared}

theorem bounded_ok {head : ℕ} (h : head < Height.top) : Bounded (.ok head) := by
  intro n hn
  cases hn
  exact h

theorem sound_heard {answer : Except Failure ℕ} (h : s.Sound c due)
    (hanswer : Refresher.Bounded answer) :
    s.Keeps c due (heard s answer) := by
  cases answer with
  | error e => exact h.keeps
  | ok head => exact h.observe (hanswer head rfl)

/-- **A step of the refresher keeps what tasks share sound.** -/
theorem sound_step {phase phase' : RefresherPhase} {signal : RefresherSignal} {s' : Shared}
    (h : s.Sound c due) (hheads : ∀ answer, signal = .head answer → Refresher.Bounded answer)
    (hstep : step s phase signal = some (phase', s')) : s.Keeps c due s' := by
  unfold step at hstep
  split at hstep
  case h_1 =>
    cases hstep
    exact h.keeps
  case h_2 answer =>
    cases hstep
    exact sound_heard h (hheads answer rfl)
  case h_3 | h_4 =>
    split at hstep
    · cases hstep
      exact h.keeps
    · cases hstep
  case h_5 => cases hstep

end Refresher

/-! ### Steps of the sequencer -/

namespace Sequencer

variable {c : Chain} {due : ℕ} {s s' : Shared} {q q' : Sequencer} {signal : SequencerSignal}

/-- What a sequencer is fed: heights of the chain from the one that is due on, below
the top; the height above them is due next. -/
structure Feeds (c : Chain) (due : ℕ) (fs : List FetchedBlock) (s' : Shared) : Prop where
  /-- They follow one another. -/
  heights_eq : Consecutive due fs
  /-- They are of the chain. -/
  holds : ∀ f ∈ fs, c.Holds f
  /-- They end below the top. -/
  le_top : due ≤ Height.top → due + fs.length ≤ Height.top
  /-- The invariant is kept. -/
  sound : s'.Sound c (due + fs.length)

theorem feeds_nil (h : s.Sound c due) : Feeds c due [] s :=
  ⟨rfl, fun _ hf => absurd hf List.not_mem_nil, id, h⟩

/-- The chunk that is taken out feeds its heights. -/
theorem feeds_take {d : CompletedChunk} {b : Buffer} (h : s.Sound c due)
    (htake : s.buffer.take = (some d, b)) :
    Feeds c due d.blocks { s with buffer := b.announce } := by
  obtain ⟨hfind, rfl⟩ := Buffer.take_some htake
  -- chunks are kept by their lowest heights, so this one begins at the height that is due
  obtain ⟨hfirst, hlast, hholds⟩ := h.chunks _ d hfind
  have hlength := d.length_blocks
  have hordered := d.range.ordered
  have hsize : due + d.blocks.length = d.range.last + 1 := by
    rw [hlength, ← h.due_eq, ← hfirst]
    unfold ChunkRange.size
    omega
  constructor
  · rw [← h.due_eq, ← hfirst]
    exact d.consecutive_blocks
  · exact hholds
  · intro _
    omega
  · refine ⟨h.planner, fun k e he => ?_, ?_⟩
    · have he' : (s.buffer.chunks.erase s.buffer.nextCommit).find? k = some e := he
      exact h.chunks k e (HeightMap.of_find?_erase he').2
    · rw [hsize, ← Height.next_of_lt hlast]
      rfl

/-- **A step of the sequencer is fed with heights of the chain**, from the one that is
due on. -/
theorem feeds_step (h : s.Sound c due) (hstep : Step q s signal q' s') :
    Feeds c due ((q.taken s signal).flatMap CompletedChunk.blocks) s' := by
  cases hstep with
  | listened hphase =>
    rw [taken_eq_nil (by rw [hphase]; simp)]
    obtain ⟨hchunks, hdue, -⟩ := s.buffer.same_listen .sequencer
    exact feeds_nil (h.withBuffer hchunks hdue).sound
  | took hphase hrun htake | brokeOff hphase hrun htake =>
    rw [taken_of_take hphase htake, Option.toList_some, List.flatMap_singleton]
    exact feeds_take h htake
  | missed hphase hrun htake =>
    rw [taken_of_take hphase htake]
    cases Buffer.take_none htake
    exact feeds_nil h
  | woke hphase =>
    rw [taken_eq_nil (by rw [hphase]; simp)]
    exact feeds_nil h
  | left =>
    rw [taken_cancel]
    exact feeds_nil (h.withBuffer (b := s.buffer.forget .sequencer) rfl rfl).sound
  | wrote hpending =>
    rw [taken_of_pending hpending]
    exact feeds_nil ⟨h.planner, h.chunks, h.due_eq⟩
  | stored hpending =>
    rw [taken_of_pending hpending]
    exact feeds_nil ⟨h.planner, h.chunks, h.due_eq⟩
  | paused hpending =>
    rw [taken_of_pending hpending]
    exact feeds_nil (h.withTelemetry _).sound
  | gaveUp hpending =>
    rw [taken_of_pending hpending]
    exact feeds_nil ⟨h.planner, h.chunks, h.due_eq⟩
  | retried hphase | stopped hphase =>
    rw [taken_eq_nil (by rw [hphase]; simp)]
    exact feeds_nil h
  | ended hphase =>
    rw [taken_eq_nil (by rw [hphase]; simp)]
    refine feeds_nil ⟨h.planner, fun k d hd => ?_, h.due_eq⟩
    cases hd

end Sequencer
end BlockIngest
