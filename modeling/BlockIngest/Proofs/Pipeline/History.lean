import BlockIngest.Proofs.Buffer.Operations
import BlockIngest.Proofs.Pipeline.Move
import BlockIngest.Proofs.Planner.Partition
import Mathlib.Data.List.ReduceOption

/-!
# Runs with their history

The state of a run does not say everything about its ranges: a worker that breaks off
never gives its range back, and a chunk that was taken out of the buffer, or thrown
away with it, is gone.  Therefore a history is kept beside a run: the record of the
planner, what each worker holds, and the chunks that have left the buffer.

## Main definitions

* `Worker.asks`, `Sequencer.cleared` — what a step asks of the planner, and the chunks
  that it throws away.
* `Warning`, `World.warnings` — what is odd about a move.
* `Custody`, `Custody.note` — who has which range, before and after a move.
* `History`, `History.after` — a run with its history.

## Main results

* `Worker.planner_step`, `Worker.buffer_step`, `Sequencer.buffer_step` — **what a step
  does to the planner and to the buffer.**
* `History.world_after` — every run has its history.
-/

namespace BlockIngest

/-! ### Calls to the planner -/

namespace Shared

theorem planner_giveUp (s : Shared) (r : ChunkRange) :
    (s.giveUp r).planner = (s.planner.release r).2 := by
  unfold giveUp
  rcases s.planner.release r with ⟨_ | _, p⟩ <;> rfl

theorem buffer_giveUp (s : Shared) (r : ChunkRange) : (s.giveUp r).buffer = s.buffer := by
  unfold giveUp
  split <;> rfl

end Shared

namespace Worker

/-- The head that an answer tells the planner about: the node is one below a height that
it does not have. -/
def heads : WorkerSignal → List Planner.Call
  | .block (.error e) => ((missing? e).map fun h => .observe (Height.prev h)).toList
  | .results (.error e) => ((missing? e).map fun h => .observe (Height.prev h)).toList
  | _ => []

/-- What a worker asks of the planner when it goes from one phase to the next. -/
def asks : WorkerPhase → WorkerSignal → WorkerPhase → List Planner.Call
  | .ready, _, .awaitingBlock _ => [.next]
  | .ready, _, .idle => [.next]
  | .ready, _, .exited (.panicked _) => [.next]
  | .submitting d _, _, .ready => [.complete d.range]
  | phase, signal, .ready => heads signal ++ (phase.held?.map .release).toList
  | phase, _, .exited .stopped => (phase.held?.map .release).toList
  | _, _, _ => []

variable {settings : Settings} {id : ℕ} {s s' : Shared} {phase next : WorkerPhase}
  {signal : WorkerSignal} {job : FetchJob} {e : Failure}

theorem missing?_of_assemble {b : Block} {r : BlockResults} {e : RpcError}
    (h : FetchedBlock.assemble b r = .error e) : missing? (.ofRpc e) = none := by
  unfold FetchedBlock.assemble at h
  split at h
  · cases h
    rfl
  · split at h
    · cases h
      rfl
    · cases h

/-- Only the node says how far it is. -/
theorem Fails.heads_eq (h : Fails phase signal job e) :
    heads signal = ((missing? e).map fun h => Planner.Call.observe (Height.prev h)).toList := by
  cases h with
  | noBlock | noResults | otherBlock => rfl
  | otherResults hassemble =>
    rw [missing?_of_assemble hassemble]
    rfl

theorem Fails.asks_ready (h : Fails phase signal job e) :
    asks phase signal .ready = heads signal ++ [.release job.range] := by
  cases h <;> rfl

theorem asks_stopped_of_job? (h : phase.job? = some job) :
    asks phase signal (.exited .stopped) = [.release job.range] := by
  cases phase <;> cases h <;> rfl

/-- **The calls of a step account for the planner.** -/
theorem planner_step (h : Step settings id s phase signal next s') :
    s'.planner = (asks phase signal next).foldl Planner.answer s.planner := by
  cases h with
  | claimed hrun hnext | overflowed hrun hnext | rested hrun hnext =>
    exact (congrArg Prod.snd hnext).symm
  | stopped hphase =>
    obtain ⟨rfl, rfl⟩ | ⟨rfl, rfl⟩ := hphase <;> rfl
  | paused hfails => cases hfails <;> rfl
  | gaveUp hfails hmissing =>
    rw [hfails.asks_ready, hfails.heads_eq, hmissing]
    exact Shared.planner_giveUp _ _
  | behind hfails hmissing =>
    -- the head is observed first, and the range given back to the planner after that
    rw [hfails.asks_ready, hfails.heads_eq, hmissing]
    exact Shared.planner_giveUp _ _
  | abandoned hjob =>
    rw [asks_stopped_of_job? hjob]
    rfl
  | panicked hcalling =>
    obtain rfl | ⟨b, rfl⟩ := hcalling <;> rfl
  | rose | received | fetched | completed | misfit | retried | listened | admitted | dropped
  | refused | told | withdrew => rfl

/-- A worker does not ask for a range once the run is cancelled. -/
theorem next_notMem_asks (h : Step settings id s phase signal next s') (hcancel : s.isCancelled) :
    .next ∉ asks phase signal next := by
  cases h with
  | claimed hrun | overflowed hrun | rested hrun => exact absurd hcancel hrun
  | gaveUp hfails hmissing | behind hfails hmissing =>
    rw [hfails.asks_ready, hfails.heads_eq, hmissing]
    simp
  | abandoned hjob =>
    rw [asks_stopped_of_job? hjob]
    simp
  | stopped hphase => obtain ⟨rfl, rfl⟩ | ⟨rfl, rfl⟩ := hphase <;> simp [asks, WorkerPhase.held?]
  | paused hfails => cases hfails <;> simp [asks]
  | panicked hcalling => obtain rfl | ⟨b, rfl⟩ := hcalling <;> simp [asks]
  | rose | withdrew => simp [asks, heads, WorkerPhase.held?, WorkerPhase.job?]
  | received | fetched | completed | misfit | retried | listened | admitted | dropped | refused
  | told => simp [asks]

end Worker

/-! ### What becomes of the buffer -/

namespace Worker

variable {settings : Settings} {id : ℕ} {s s' : Shared} {phase next : WorkerPhase}
  {signal : WorkerSignal}

/-- A worker leaves the chunks alone, or lets its own one in. -/
theorem buffer_step (h : Step settings id s phase signal next s') :
    s.buffer.SameChunks s'.buffer ∨
      ∃ d, phase = .submitting d .looking ∧ next = .ready ∧ s.buffer.admission d = .stored ∧
        s'.buffer = (s.buffer.offer d).2.forget (.worker id) := by
  cases h with
  | admitted hadmission => exact Or.inr ⟨_, rfl, rfl, hadmission, rfl⟩
  | listened => exact Or.inl (s.buffer.same_listen _)
  | dropped | withdrew => exact Or.inl (s.buffer.same_forget _)
  | gaveUp | behind => exact Or.inl (.of_eq (Shared.buffer_giveUp _ _))
  | stopped | claimed | overflowed | rested | rose | received | fetched | completed | misfit
  | paused | retried | abandoned | panicked | refused | told => exact Or.inl (.refl _)

theorem nextCommit_step (h : Step settings id s phase signal next s') :
    s'.buffer.nextCommit = s.buffer.nextCommit := by
  rcases buffer_step h with hsame | ⟨d, -, -, hadmission, hin⟩
  · exact hsame.nextCommit_eq
  · rw [hin, Buffer.offer_of_stored hadmission]
    rfl

end Worker

namespace Sequencer

variable {q q' : Sequencer} {s s' : Shared} {signal : SequencerSignal}

/-- The chunks that a step throws away. -/
def cleared (q : Sequencer) (s : Shared) (signal : SequencerSignal) : List CompletedChunk :=
  match q.phase, signal with
  | .draining, .turn => s.buffer.chunks.values
  | _, _ => []

theorem cleared_eq_nil (h : q.phase ≠ .draining) : q.cleared s signal = [] := by
  unfold cleared
  split
  · next hphase => exact absurd hphase h
  · rfl

theorem planner_step (h : Step q s signal q' s') : s'.planner = s.planner := by
  cases h <;> rfl

/-- The sequencer leaves the chunks alone, takes the due one out, or throws all of them
away. -/
theorem buffer_step (h : Step q s signal q' s') :
    (q.taken s signal = [] ∧ q.cleared s signal = [] ∧ s.buffer.SameChunks s'.buffer) ∨
      (∃ d, q.taken s signal = [d] ∧ q.cleared s signal = [] ∧
        s.buffer.chunks.find? s.buffer.nextCommit = some d ∧
        s'.buffer = { s.buffer with
          chunks := s.buffer.chunks.erase s.buffer.nextCommit
          nextCommit := Height.next d.range.last }.announce) ∨
      q.taken s signal = [] ∧ q.cleared s signal = s.buffer.chunks.values ∧
        s'.buffer = s.buffer.clear.2 := by
  have hcleared : q.phase ≠ .draining → q.cleared s signal = [] := cleared_eq_nil
  cases h with
  | listened hphase =>
    exact Or.inl ⟨taken_eq_nil (by rw [hphase]; simp), hcleared (by rw [hphase]; simp),
      s.buffer.same_listen _⟩
  | woke hphase | retried hphase | stopped hphase =>
    exact Or.inl ⟨taken_eq_nil (by rw [hphase]; simp), hcleared (by rw [hphase]; simp), .refl _⟩
  | left hphase =>
    exact Or.inl ⟨taken_cancel _ _, hcleared (by rw [hphase]; simp), s.buffer.same_forget _⟩
  | missed hphase hrun htake =>
    exact Or.inl ⟨taken_of_take hphase htake, hcleared (by rw [hphase]; simp),
      .of_eq (Buffer.take_none htake)⟩
  | wrote hpending | stored hpending | paused hpending | gaveUp hpending =>
    have hphase : q.phase ≠ .draining := fun hphase => by
      rw [hphase] at hpending
      cases hpending
    exact Or.inl ⟨taken_of_pending hpending, hcleared hphase, .refl _⟩
  | took hphase hrun htake | brokeOff hphase hrun htake =>
    -- a chunk is out of the buffer also if it is not the one that was expected
    obtain ⟨hfind, rfl⟩ := Buffer.take_some htake
    exact Or.inr (Or.inl ⟨_, taken_of_take hphase htake, hcleared (by rw [hphase]; simp),
      hfind, rfl⟩)
  | ended hphase =>
    have hall : q.cleared s .turn = s.buffer.chunks.values := by
      unfold cleared
      rw [hphase]
    exact Or.inr (Or.inr ⟨taken_eq_nil (by rw [hphase]; simp), hall, rfl⟩)

/-- No chunk gets lost in a step of the sequencer. -/
theorem chunks_step (h : Step q s signal q' s') (d : CompletedChunk)
    (hd : d ∈ s.buffer.chunks.values) :
    d ∈ s'.buffer.chunks.values ∨ d ∈ q.taken s signal ∨ d ∈ q.cleared s signal := by
  rcases buffer_step h with ⟨-, -, hsame⟩ | ⟨e, htaken, -, hfind, hout⟩ | ⟨-, hcleared, -⟩
  · exact Or.inl (hsame.chunks_eq ▸ hd)
  · rw [hout, htaken]
    rcases List.mem_cons.mp ((HeightMap.values_erase_perm hfind).subset hd) with rfl | hd
    · exact Or.inr (Or.inl (List.mem_singleton.mpr rfl))
    · exact Or.inl hd
  · exact Or.inr (Or.inr (hcleared ▸ hd))

end Sequencer

/-! ### What is odd -/

/-- What a task complains about. -/
inductive Warning where
  /-- A range is given back or completed that is not claimed. -/
  | unclaimed (r : ChunkRange)
  /-- A chunk is dropped because it lies below what is due. -/
  | stale (d : CompletedChunk)
  /-- A chunk takes the place of one with the same lowest height. -/
  | replaced (d : CompletedChunk)

/-- What a planner complains about in a call. -/
def Planner.complaints (p : Planner) : Call → List Warning
  | .release r => if (p.release r).1 then [] else [.unclaimed r]
  | .complete r => if (p.complete r).1 then [] else [.unclaimed r]
  | _ => []

/-- What a planner complains about in calls, one after the other. -/
def Planner.warnings (p : Planner) : List Call → List Warning
  | [] => []
  | x :: xs => p.complaints x ++ (p.answer x).warnings xs

/-- What the buffer complains about when a chunk wants in. -/
def Buffer.warnings (b : Buffer) (d : CompletedChunk) : List Warning :=
  match b.admission d with
  | .stale => [.stale d]
  | .stored => if (b.chunks.find? d.range.first).isSome then [.replaced d] else []
  | .full => []

/-- What is complained about in a step of a worker. -/
def Worker.warnings (s : Shared) (phase : WorkerPhase) (signal : WorkerSignal)
    (next : WorkerPhase) : List Warning :=
  match phase, signal with
  | .submitting d .looking, .turn =>
      s.buffer.warnings d ++ s.planner.warnings (asks phase signal next)
  | _, _ => s.planner.warnings (asks phase signal next)

/-- What is complained about in a move. -/
def World.warnings (w : World) (m : Move) (w' : World) : List Warning :=
  match m with
  | .worker id signal =>
      match w.workers[id]?, w'.workers[id]? with
      | some phase, some next => Worker.warnings w.shared phase signal next
      | _, _ => []
  | _ => []

/-! ### Who has which range -/

/-- Who has which range, as far as the state of a run does not say it. -/
structure Custody where
  /-- The record of the planner. -/
  record : Planner.Record
  /-- The range that each worker holds.  A worker that breaks off keeps its range. -/
  holding : List (Option ChunkRange)
  /-- The chunks that were taken out of the buffer. -/
  popped : List CompletedChunk
  /-- The chunks that were thrown away. -/
  discarded : List CompletedChunk

namespace Custody

variable {c : Custody} {w w' : World} {m : Move} {id : ℕ} {phase next : WorkerPhase}
  {signal : WorkerSignal}

/-- Who has which range after the step of a worker.  One that breaks off keeps what it had, or
what it has claimed in this step. -/
def work (c : Custody) (id : ℕ) (phase : WorkerPhase) (signal : WorkerSignal)
    (next : WorkerPhase) : Custody where
  record := (Worker.asks phase signal next).foldl Planner.Record.note c.record
  holding :=
    match next with
    | .exited (.panicked _) =>
        match phase with
        | .ready => c.holding.set id c.record.planner.next.1
        | _ => c.holding
    | _ => c.holding.set id next.held?
  popped := c.popped
  discarded := c.discarded

/-- Who has which range after a move. -/
def note (c : Custody) (w : World) (m : Move) (w' : World) : Custody :=
  match m with
  | .worker id signal =>
      match w.workers[id]?, w'.workers[id]? with
      | some phase, some next => c.work id phase signal next
      | _, _ => c
  | .sequencer signal =>
      { c with
        popped := c.popped ++ w.sequencer.taken w.shared signal
        discarded := c.discarded ++ w.sequencer.cleared w.shared signal }
  | .refresher (.head (.ok head)) => { c with record := c.record.note (.observe head) }
  | _ => c

theorem note_worker (hphase : w.workers[id]? = some phase)
    (hnext : w'.workers[id]? = some next) :
    c.note w (.worker id signal) w' = c.work id phase signal next := by
  simp only [note, hphase, hnext]

end Custody

/-! ### Runs with their history -/

/-- The height below the one at which a run is resumed. -/
def Standing.floor (standing : Standing) : ℕ :=
  Height.prev (Height.resume standing.store.latestHeight)

theorem Standing.floor_lt_resume (standing : Standing) :
    standing.floor < Height.resume standing.store.latestHeight := by
  have htop : 0 < Height.top := by decide
  unfold floor Height.prev Height.resume Height.next Height.add
  omega

/-- A run with its history. -/
structure History where
  /-- The run. -/
  world : World
  /-- Who has which range. -/
  custody : Custody

namespace History

variable {h h' : History} {m : Move} {ms : List Move}

/-- The history after a move; nothing if the task cannot go on that way. -/
def move (h : History) (m : Move) : Option History :=
  (h.world.move m).map fun w' => ⟨w', h.custody.note h.world m w'⟩

/-- The history after moves, one after the other. -/
def after (h : History) (ms : List Move) : Option History := ms.foldlM move h

/-- The start of a run above what is stored. -/
def resumed (settings : RunSettings) (standing : Standing) (root : Bool) {size capacity : ℕ}
    (hsize : 0 < size) (hcapacity : 0 < capacity) (slots : ℕ) (head : Except Failure ℕ) :
    History where
  world := .resumed settings standing root hsize hcapacity slots head
  custody :=
    { record :=
        .after (.start standing.floor size hsize)
          (match head with
          | .ok n => [.observe n]
          | .error _ => [])
      holding := List.replicate (max slots 1) none
      popped := []
      discarded := [] }

theorem move_eq_some (hmove : h.move m = some h') :
    h.world.move m = some h'.world ∧ h'.custody = h.custody.note h.world m h'.world := by
  obtain ⟨w', hw', rfl⟩ := Option.map_eq_some_iff.mp hmove
  exact ⟨hw', rfl⟩

/-- **Every run has its history.** -/
theorem world_after (h : History) (ms : List Move) :
    (h.after ms).map world = h.world.after ms := by
  induction ms generalizing h with
  | nil => rfl
  | cons m ms ih =>
    unfold after World.after at ih ⊢
    rw [List.foldlM_cons, List.foldlM_cons]
    rcases hmove : h.world.move m with _ | w'
    · have hnone : h.move m = none := by
        unfold move
        rw [hmove]
        rfl
      rw [hnone]
      rfl
    · have hsome : h.move m = some ⟨w', h.custody.note h.world m w'⟩ := by
        unfold move
        rw [hmove]
        rfl
      rw [hsome]
      exact ih _

end History
end BlockIngest
