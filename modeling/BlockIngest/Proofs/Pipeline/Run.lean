import BlockIngest.Pipeline.World
import BlockIngest.Proofs.Commit.Discipline
import BlockIngest.Proofs.Pipeline.Sound

/-!
# Runs of the pipeline over a chain

A run is moved by its tasks and from outside, in any order: whichever task is
awaited may go on, any call may fail, and the tokens may be cancelled at any time.
All that is asked of the node is that its answers are those of one chain and that
its heads are below the top.

Whatever the order of the moves, the sequencer is fed with the heights of the chain
from the first one on.

## Main definitions

* `Move`, `World.move` — a move, and the run after it.
* `World.Run` — what a run has done, and how it stands.
* `World.Follows` — the invariant.
* `World.resumed` — the start of a run above what is stored.
* `World.replay` — a run on cues.

## Main results

* `World.Follows.move` — **every move keeps the invariant.**
* `World.Run.commits` — the height in hand may be committed.
-/

namespace BlockIngest

/-- A move of a run. -/
inductive Move where
  /-- A worker goes on. -/
  | worker (id : ℕ) (signal : WorkerSignal)
  /-- The sequencer goes on. -/
  | sequencer (signal : SequencerSignal)
  /-- The refresher goes on. -/
  | refresher (signal : RefresherSignal)
  /-- The token of the run is cancelled. -/
  | cancelRun
  /-- The root token is cancelled. -/
  | cancelRoot

namespace World

/-- The run after a move; nothing if the task cannot go on that way. -/
def move (w : World) : Move → Option World
  | .worker id signal => w.stepWorker id signal
  | .sequencer signal => w.stepSequencer signal
  | .refresher signal => w.stepRefresher signal
  | .cancelRun => some w.cancelRun
  | .cancelRoot => some w.cancelRoot

/-- What a move does to the world outside. -/
def effects (w : World) : Move → List Effect
  | .sequencer signal => w.sequencer.effects signal
  | _ => []

/-- Whether a node behind which there is a chain may cause a move. -/
def Allows (c : Chain) (w : World) : Move → Prop
  | .worker id signal => ∀ phase, w.workers[id]? = some phase → c.Answers phase signal
  | .refresher signal => ∀ answer, signal = .head answer → Refresher.Bounded answer
  | _ => True

/-- A run over a chain: what it has done since a state, and how it stands. -/
inductive Run (c : Chain) (w₀ : World) : List Effect → World → Prop where
  /-- It has not begun. -/
  | start : Run c w₀ [] w₀
  /-- It is moved once more. -/
  | move {trace : List Effect} {w w' : World} {m : Move} (hrun : Run c w₀ trace w)
      (hallows : w.Allows c m) (hmove : w.move m = some w') : Run c w₀ (trace ++ w.effects m) w'

/-! ### The invariant -/

/-- A run follows a chain: from a height and a ledger on, the sequencer was fed with
heights of the chain, and what it did with them made the ledger what it is. -/
structure Follows (c : Chain) (first : ℕ) (l₀ : Ledger) (fs : List FetchedBlock)
    (trace : List Effect) (w : World) : Prop where
  /-- The heights follow one another. -/
  heights_eq : Consecutive first fs
  /-- They are of the chain. -/
  holds : ∀ f ∈ fs, c.Holds f
  /-- They end below the top. -/
  le_top : first + fs.length ≤ Height.top
  /-- What tasks share is of the chain. -/
  sound : w.shared.Sound c (first + fs.length)
  /-- So is what workers hold. -/
  serves : ∀ phase ∈ w.workers, c.Serves phase
  /-- The sequencer has committed some of the heights, and stands with the others. -/
  tracked : w.sequencer.Tracked w.settings.storage fs trace
  /-- What it did made the ledger. -/
  ledger_eq : w.shared.ledger = l₀.after trace

namespace Follows

variable {c : Chain} {first : ℕ} {l₀ : Ledger} {fs : List FetchedBlock} {trace : List Effect}
  {w w' : World}

theorem keeps (h : w.Follows c first l₀ fs trace) {s : Shared} {phases : List WorkerPhase}
    {n : ℕ} {phase : RefresherPhase} (hs : w.shared.Keeps c (first + fs.length) s)
    (hphases : ∀ phase ∈ phases, c.Serves phase) :
    Follows c first l₀ fs trace
      { w with shared := s, workers := phases, activeWorkers := n, refresher := phase } where
  heights_eq := h.heights_eq
  holds := h.holds
  le_top := h.le_top
  sound := hs.sound
  serves := hphases
  tracked := h.tracked
  ledger_eq := hs.ledger_eq.trans h.ledger_eq

/-- How a run is told to end does not matter for what tasks share. -/
theorem withShutdown (h : w.Follows c first l₀ fs trace) (shutdown : Shutdown) :
    Follows c first l₀ fs trace { w with shared := { w.shared with shutdown := shutdown } } :=
  h.keeps (s := { w.shared with shutdown := shutdown })
    ⟨⟨h.sound.planner, h.sound.chunks, h.sound.due_eq⟩, rfl⟩ h.serves

/-- Nor does what an ended sequencer returns. -/
theorem goTo_exited {result : Except Failure Unit} (h : w.Follows c first l₀ fs trace)
    (hphase : w.sequencer.phase = .exited result) (other : Except Failure Unit) :
    Follows c first l₀ fs trace { w with sequencer := w.sequencer.goTo (.exited other) } :=
  { h with tracked := h.tracked.goTo_exited hphase }

theorem sequencerEnded_snd (settings : RunSettings) (result : Except Failure Unit) (s : Shared) :
    ∃ shutdown, (sequencerEnded settings result s).2 = { s with shutdown := shutdown } := by
  unfold sequencerEnded
  split
  · exact ⟨s.shutdown, rfl⟩
  · split
    · exact ⟨_, rfl⟩
    · exact ⟨s.shutdown, rfl⟩

theorem keeps_workerEnded {due : ℕ} {s : Shared} (h : s.Sound c due) (settings : RunSettings)
    (id : ℕ) (exit : WorkerExit) : s.Keeps c due (workerEnded settings id exit s) := by
  unfold workerEnded
  split
  · split
    · exact ⟨⟨h.planner, h.chunks, h.due_eq⟩, rfl⟩
    · exact h.keeps
  · exact h.keeps

theorem stepWorker {id : ℕ} {signal : WorkerSignal} (h : w.Follows c first l₀ fs trace)
    (hanswers : ∀ phase, w.workers[id]? = some phase → c.Answers phase signal)
    (hstep : w.stepWorker id signal = some w') : w'.Follows c first l₀ fs trace := by
  unfold World.stepWorker at hstep
  rcases hphase : w.workers[id]? with _ | phase
  · rw [hphase] at hstep
    cases hstep
  · rw [hphase] at hstep
    simp only at hstep
    have hserves := h.serves phase (List.mem_of_getElem? hphase)
    have hset : ∀ next, c.Serves next → ∀ phase ∈ w.workers.set id next, c.Serves phase := by
      intro next hnext phase hphase
      rcases List.mem_or_eq_of_mem_set hphase with hold | rfl
      · exact h.serves phase hold
      · exact hnext
    split at hstep
    · cases hstep
    · next exit s hout =>
      obtain ⟨hkeeps, -⟩ := Worker.sound_step h.sound hserves (hanswers phase hphase) hout
      cases hstep
      exact h.keeps (hkeeps.trans (keeps_workerEnded hkeeps.sound _ _ _)) (hset _ trivial)
    · next phase' s hout =>
      obtain ⟨hkeeps, hnext⟩ := Worker.sound_step h.sound hserves (hanswers phase hphase) hout
      cases hstep
      exact h.keeps hkeeps (hset _ hnext)

theorem stepRefresher {signal : RefresherSignal} (h : w.Follows c first l₀ fs trace)
    (hheads : ∀ answer, signal = .head answer → Refresher.Bounded answer)
    (hstep : w.stepRefresher signal = some w') : w'.Follows c first l₀ fs trace := by
  unfold World.stepRefresher at hstep
  split at hstep
  · cases hstep
  · next phase s hout =>
    cases hstep
    exact h.keeps (Refresher.sound_step h.sound hheads hout) h.serves

/-- The sequencer goes on, and what it takes out of the buffer is what it is fed
next. -/
theorem stepSequencer {signal : SequencerSignal} (h : w.Follows c first l₀ fs trace)
    (hstep : w.stepSequencer signal = some w') :
    w'.Follows c first l₀
      (fs ++ (w.sequencer.taken w.shared signal).flatMap CompletedChunk.blocks)
      (trace ++ w.sequencer.effects signal) := by
  unfold World.stepSequencer at hstep
  rcases hout : w.sequencer.step w.shared signal with _ | ⟨q, s⟩
  · rw [hout] at hstep
    cases hstep
  · rw [hout] at hstep
    simp only at hstep
    have hfeeds := Sequencer.feeds_step h.sound (Sequencer.step_cases hout)
    have hnext : Follows c first l₀
        (fs ++ (w.sequencer.taken w.shared signal).flatMap CompletedChunk.blocks)
        (trace ++ w.sequencer.effects signal) { w with shared := s, sequencer := q } := by
      constructor
      · exact consecutive_append.mpr ⟨h.heights_eq, hfeeds.heights_eq⟩
      · intro f hf
        exact (List.mem_append.mp hf).elim (h.holds f) (hfeeds.holds f)
      · rw [List.length_append, ← Nat.add_assoc]
        exact hfeeds.le_top h.le_top
      · rw [List.length_append, ← Nat.add_assoc]
        exact hfeeds.sound
      · exact h.serves
      · exact h.tracked.step hout
      · rw [Ledger.after_append, ← h.ledger_eq]
        exact Sequencer.ledger_step hout
    split at hstep
    · next result hphase =>
      -- that it has ended may end the run, and changes what it returns
      obtain ⟨shutdown, hended⟩ := sequencerEnded_snd w.settings result s
      cases hstep
      rw [hended]
      exact (hnext.withShutdown shutdown).goTo_exited hphase _
    · cases hstep
      exact hnext

theorem quiet {m : Move} (h : w'.Follows c first l₀ fs trace) (hm : w.effects m = []) :
    ∃ later, w'.Follows c first l₀ (fs ++ later) (trace ++ w.effects m) := by
  refine ⟨[], ?_⟩
  rw [hm, List.append_nil, List.append_nil]
  exact h

/-- **Every move keeps the invariant.** -/
theorem move {m : Move} (h : w.Follows c first l₀ fs trace) (hallows : w.Allows c m)
    (hmove : w.move m = some w') :
    ∃ later, w'.Follows c first l₀ (fs ++ later) (trace ++ w.effects m) := by
  cases m with
  | sequencer signal => exact ⟨_, h.stepSequencer hmove⟩
  | worker id signal => exact quiet (h.stepWorker hallows hmove) rfl
  | refresher signal => exact quiet (h.stepRefresher hallows hmove) rfl
  | cancelRun | cancelRoot =>
    cases hmove
    exact quiet (h.withShutdown _) rfl

end Follows

/-- A run that has moved follows the chain if it did before. -/
theorem Run.follows {c : Chain} {first : ℕ} {l₀ : Ledger} {trace : List Effect} {w₀ w : World}
    (hrun : Run c w₀ trace w) (h : w₀.Follows c first l₀ [] []) :
    ∃ fs, w.Follows c first l₀ fs trace := by
  induction hrun with
  | start => exact ⟨[], h⟩
  | move hrun hallows hmove ih =>
    obtain ⟨fs, hfs⟩ := ih
    obtain ⟨later, hlater⟩ := hfs.move hallows hmove
    exact ⟨fs ++ later, hlater⟩

/-! ### Commits -/

section Commits

variable {c : Chain} {w₀ w : World} {trace : List Effect} {job : CommitJob} {write : Write}
  {later : List TxResult}

/-- Where the sequencer can go on, the run can. -/
theorem exists_stepSequencer {signal : SequencerSignal} {q : Sequencer} {s : Shared}
    (hstep : w.sequencer.step w.shared signal = some (q, s)) :
    ∃ w', w.stepSequencer signal = some w' ∧
      ((∀ result, q.phase ≠ .exited result) → w'.sequencer = q) := by
  unfold stepSequencer
  rw [hstep]
  simp only
  split
  · next result hresult => exact ⟨_, rfl, fun hphase => absurd hresult (hphase result)⟩
  · exact ⟨_, rfl, fun _ => rfl⟩

/-- **The height in hand may be committed**: what is left of it may be written without a
failure. -/
theorem Run.commits (h : Run c w₀ trace w)
    (hpending : w.sequencer.phase.pending? = some (job, write, later)) :
    ∃ w', Run c w₀ (trace ++ (stored (write :: later.map .tx) ++ job.current.closing)) w' := by
  induction later generalizing trace w write with
  | nil =>
    obtain ⟨w', hmove, -⟩ := exists_stepSequencer (Sequencer.step_written hpending w.shared)
    have hrun := h.move (m := .sequencer (.written (.ok ()))) trivial hmove
    have heffects : w.effects (.sequencer (.written (.ok ())))
        = .wrote write (.ok ()) :: job.current.closing := Sequencer.effects_stored hpending
    rw [heffects] at hrun
    exact ⟨w', hrun⟩
  | cons tx later ih =>
    obtain ⟨w', hmove, hnext⟩ := exists_stepSequencer (Sequencer.step_written hpending w.shared)
    have hrun := h.move (m := .sequencer (.written (.ok ()))) trivial hmove
    have heffects : w.effects (.sequencer (.written (.ok ()))) = [.wrote write (.ok ())] :=
      Sequencer.effects_wrote hpending
    have hpending' : w'.sequencer.phase.pending? = some (job, .tx tx, later) := by
      rw [hnext fun result hresult => by cases hresult]
      rfl
    obtain ⟨w'', hlater⟩ := ih hrun hpending'
    rw [heffects, List.append_assoc] at hlater
    exact ⟨w'', hlater⟩

end Commits

/-! ### The start of a run -/

/-- A run as it is launched above what is stored, whatever its settings, its sizes
and the state of the root token. -/
def resumed (settings : RunSettings) (standing : Standing) (root : Bool) {size capacity : ℕ}
    (hsize : 0 < size) (hcapacity : 0 < capacity) (slots : ℕ) (head : Except Failure ℕ) : World :=
  let resume := Height.resume standing.store.latestHeight
  .launch settings
    (Refresher.heard
      { standing with
        planner := .start (Height.prev resume) size hsize
        buffer := .start resume capacity hcapacity
        shutdown := .start root } head)
    resume slots

theorem follows_resumed (c : Chain) (settings : RunSettings) (standing : Standing) (root : Bool)
    {size capacity : ℕ} (hsize : 0 < size) (hcapacity : 0 < capacity) (slots : ℕ)
    {head : Except Failure ℕ} (hhead : Refresher.Bounded head) :
    (resumed settings standing root hsize hcapacity slots head).Follows c
      (Height.resume standing.store.latestHeight) standing.ledger [] [] := by
  have hsound : Shared.Sound c (Height.resume standing.store.latestHeight)
      { standing with
        planner := .start (Height.prev (Height.resume standing.store.latestHeight)) size hsize
        buffer := .start (Height.resume standing.store.latestHeight) capacity hcapacity
        shutdown := .start root } := by
    refine ⟨Planner.low_start _ size hsize, fun k d hd => ?_, rfl⟩
    cases hd
  have hheard := Refresher.sound_heard hsound hhead
  constructor
  · rfl
  · intro f hf
    cases hf
  · exact Height.next_le_top _
  · exact hheard.sound
  · intro phase hphase
    rw [List.eq_of_mem_replicate hphase]
    trivial
  · exact Sequencer.tracked_start _ _
  · exact hheard.ledger_eq

/-! ### Schedules -/

/-- How a worker goes on if nothing fails: with the chain's answer, after its pause, or
by itself. -/
def proceed (c : Chain) (id : ℕ) (w : World) : Move :=
  match w.workers[id]? with
  | some (.awaitingBlock job) => .worker id (.block (.ok (c.block job.height)))
  | some (.awaitingResults job _) => .worker id (.results (.ok (c.results job.height)))
  | some (.pausing _ _) => .worker id .elapsed
  | some .idle => .worker id .elapsed
  | _ => .worker id .turn

/-- How the sequencer goes on if nothing fails. -/
def commit (w : World) : Move :=
  match w.sequencer.phase with
  | .savingBlock _ => .sequencer (.written (.ok ()))
  | .savingTx _ _ _ => .sequencer (.written (.ok ()))
  | .pausing _ _ => .sequencer .elapsed
  | _ => .sequencer .turn

/-- A move that may depend on how a run stands, and that a node behind which there is
a chain may cause. -/
structure Cue (c : Chain) where
  /-- The move. -/
  move : World → Move
  /-- The node may cause it. -/
  allowed : ∀ w : World, w.Allows c (move w)

namespace Cue

variable {c : Chain}

/-- A worker goes on. -/
def worker (id : ℕ) : Cue c where
  move := proceed c id
  allowed := by
    intro w
    unfold proceed
    split
    case h_1 job hphase | h_2 job b hphase =>
      intro phase hphase'
      rw [hphase] at hphase'
      cases hphase'
      rfl
    all_goals
      intro phase hphase
      cases phase <;> trivial

/-- A worker gets no answer. -/
def workerFails (id : ℕ) : Cue c where
  move _ := .worker id (.block (.error (.ofText "no answer")))
  allowed := by
    intro w phase hphase
    have hbounds : Failure.Bounded (.ofText "no answer") := by
      intro k hk
      cases hk
    cases phase <;> exact hbounds

/-- The sequencer goes on. -/
def sequencer : Cue c where
  move := commit
  allowed := by
    intro w
    unfold commit
    split <;> trivial

/-- A write fails. -/
def sequencerFails : Cue c where
  move _ := .sequencer (.written (.error (.ofText "disk full")))
  allowed _ := trivial

end Cue

/-- What a run does on cues, one after the other, and how it stands then. -/
def replay {c : Chain} (w : World) : List (Cue c) → Option (List Effect × World)
  | [] => some ([], w)
  | cue :: cues => do
      let w' ← w.move (cue.move w)
      let (es, w'') ← w'.replay cues
      return (w.effects (cue.move w) ++ es, w'')

theorem Run.replay {c : Chain} {w₀ w w' : World} {trace es : List Effect} {cues : List (Cue c)}
    (h : Run c w₀ trace w) (hreplay : w.replay cues = some (es, w')) :
    Run c w₀ (trace ++ es) w' := by
  induction cues generalizing w trace es with
  | nil =>
    cases hreplay
    rw [List.append_nil]
    exact h
  | cons cue cues ih =>
    unfold World.replay at hreplay
    obtain ⟨w₁, hmove, hlater⟩ := Option.bind_eq_some_iff.mp hreplay
    obtain ⟨⟨es₁, w₂⟩, hreplay, hpair⟩ := Option.bind_eq_some_iff.mp hlater
    cases hpair
    rw [← List.append_assoc]
    exact ih (h.move (cue.allowed w) hmove) hreplay

end World
end BlockIngest
