import BlockIngest.Proofs.Pipeline.Custody
import BlockIngest.Proofs.Pipeline.Supervision

/-!
# Each range is in one place

Whatever the node answers, in whatever order the tasks go on, and whenever the run is
cancelled: each range that was handed out is released, held by one worker, or let into
the buffer, and it is in one of these places only.  A worker that breaks off keeps its
range.  Therefore no height is fetched by two workers at once, none is fetched again
once its chunk was let in, and what the code complains about when it is handed
something odd never happens.

## Main definitions

* `History.Sound` — the invariant.
* `History.Accounted` — the law.

## Main results

* `Custody.Sound.warnings_eq_nil` — nothing is odd about a step of a worker.
* `History.Sound.move` — **every move keeps the invariant.**
* `History.accounted_of_run` — **each range is in one place.**
-/

namespace BlockIngest

/-! ### Nothing is odd -/

namespace Planner

variable {p : Planner} {r : ChunkRange}

theorem complaints_release (h : p.claimed.find? r.first = some r) :
    p.complaints (.release r) = [] := by
  simp only [complaints, release_claimed h, if_true]

theorem complaints_complete (h : p.claimed.find? r.first = some r) :
    p.complaints (.complete r) = [] := by
  simp only [complaints, complete_claimed h, if_true]

end Planner

theorem Worker.warnings_of_job? {s : Shared} {phase next : WorkerPhase} {signal : WorkerSignal}
    {job : FetchJob} (h : phase.job? = some job) :
    Worker.warnings s phase signal next = s.planner.warnings (asks phase signal next) := by
  cases phase <;> cases h <;> rfl

/-- **Nothing is odd about a step of a worker.** -/
theorem Custody.Sound.warnings_eq_nil {low size id : ℕ} {s s' : Shared} {c : Custody}
    {settings : Worker.Settings} {phase next : WorkerPhase} {signal : WorkerSignal}
    (h : c.Sound low size s) (hid : c.holding[id]? = some phase.held?) (hfits : phase.Fits)
    (hstep : Worker.Step settings id s phase signal next s') :
    Worker.warnings s phase signal next = [] := by
  have hnext := Worker.fits_step hstep hfits
  cases hstep with
  | stopped hphase => obtain ⟨rfl, rfl⟩ | ⟨rfl, rfl⟩ := hphase <;> rfl
  | paused hfails => cases hfails <;> rfl
  | panicked hcalling => obtain rfl | ⟨b, rfl⟩ := hcalling <;> rfl
  | misfit => exact hnext.elim
  | claimed | overflowed | rested | rose | received | fetched | completed | retried | listened
  | told => rfl
  | gaveUp hfails hmissing =>
    have hjob := hfails.job?_eq
    rw [WorkerPhase.held?_of_job? hjob] at hid
    rw [Worker.warnings_of_job? hjob, hfails.asks_ready, hfails.heads_eq, hmissing]
    exact (List.append_nil _).trans (Planner.complaints_release (h.find_of_held hid))
  | @behind phase signal job e k hfails hmissing =>
    have hjob := hfails.job?_eq
    rw [WorkerPhase.held?_of_job? hjob] at hid
    rw [Worker.warnings_of_job? hjob, hfails.asks_ready, hfails.heads_eq, hmissing]
    -- a head that is observed changes nothing about what is claimed
    have hfind : (s.planner.observe (Height.prev k)).2.claimed.find? job.range.first
        = some job.range := by
      rw [(Planner.sameRanges_observe _ _).2.2.1]
      exact h.find_of_held hid
    exact (List.append_nil _).trans (Planner.complaints_release hfind)
  | abandoned hjob =>
    rw [WorkerPhase.held?_of_job? hjob] at hid
    rw [Worker.warnings_of_job? hjob, Worker.asks_stopped_of_job? hjob]
    exact (List.append_nil _).trans (Planner.complaints_release (h.find_of_held hid))
  | @withdrew d call =>
    have hwarnings : Worker.warnings s (.submitting d call) .cancel (.exited .stopped)
        = s.planner.warnings [.release d.range] := by
      cases call <;> rfl
    rw [hwarnings]
    exact (List.append_nil _).trans (Planner.complaints_release (h.find_of_held hid))
  | @admitted d hadmission =>
    have hbuffer : s.buffer.warnings d = [] := by
      unfold Buffer.warnings
      rw [hadmission, h.find_eq_none hid]
      rfl
    show s.buffer.warnings d ++ (s.planner.complaints (.complete d.range) ++ []) = []
    rw [hbuffer, Planner.complaints_complete (h.find_of_held hid)]
    rfl
  | dropped hadmission => exact absurd hadmission (h.admission_ne_stale hid)
  | @refused d hadmission =>
    have hbuffer : s.buffer.warnings d = [] := by
      unfold Buffer.warnings
      rw [hadmission]
    show s.buffer.warnings d ++ [] = []
    rw [hbuffer]
    rfl

/-! ### Runs -/

theorem Worker.heads_lt {id n : ℕ} {signal : WorkerSignal} (h : (Move.worker id signal).Bounded)
    (hn : .observe n ∈ heads signal) : n < Height.top := by
  have htop : 0 < Height.top := by decide
  have hprev : ∀ e : Failure, e.Bounded →
      .observe n ∈ ((missing? e).map fun h => Planner.Call.observe (Height.prev h)).toList →
        n < Height.top := by
    intro e he hmem
    rw [Option.mem_toList, Option.map_eq_some_iff] at hmem
    obtain ⟨k, hk, hobserve⟩ := hmem
    cases hobserve
    have hle := he k hk
    unfold Height.prev
    omega
  cases signal with
  | block answer | results answer =>
    cases answer with
    | error e => exact hprev e h hn
    | ok => cases hn
  | turn | elapsed | panic | cancel => cases hn

/-- A worker that has ended does nothing. -/
theorem Worker.not_exited_of_step {settings : Worker.Settings} {id : ℕ} {s s' : Shared}
    {phase next : WorkerPhase} {signal : WorkerSignal}
    (h : Worker.Step settings id s phase signal next s') (exit : WorkerExit) :
    phase ≠ .exited exit := by
  rintro rfl
  cases h with
  | stopped hphase => rcases hphase with ⟨hphase, -⟩ | ⟨hphase, -⟩ <;> cases hphase
  | paused hfails | gaveUp hfails | behind hfails => cases hfails
  | abandoned hjob => cases hjob
  | panicked hcalling => rcases hcalling with hcalling | ⟨b, hcalling⟩ <;> cases hcalling

namespace Custody

variable {c : Custody} {id id' : ℕ} {phase next : WorkerPhase} {signal : WorkerSignal}

theorem length_work :
    (c.work id phase signal next).holding.length = c.holding.length := by
  unfold work
  split
  · split
    · exact List.length_set
    · rfl
  · exact List.length_set

theorem holding_work_of_ne (h : id' ≠ id) :
    (c.work id phase signal next).holding[id']? = c.holding[id']? := by
  unfold work
  split
  · split
    · exact List.getElem?_set_ne h.symm
    · rfl
  · exact List.getElem?_set_ne h.symm

/-- A worker that breaks off keeps what it held. -/
theorem holding_work_of_held {r : ChunkRange} {text : String} (h : phase.held? = some r) :
    (c.work id phase signal (.exited (.panicked text))).holding = c.holding := by
  cases phase <;> cases h <;> rfl

theorem holding_work_self (h : id < c.holding.length)
    (hnext : ∀ text, next ≠ .exited (.panicked text)) :
    (c.work id phase signal next).holding[id]? = some next.held? := by
  unfold work
  split
  · next text => exact absurd rfl (hnext text)
  · exact List.getElem?_set_self h

end Custody

namespace History

variable {low size : ℕ} {x x' : History} {m : Move}

/-- Custody says of each worker what it holds, unless it has broken off. -/
structure Held (x : History) : Prop where
  length_eq : x.custody.holding.length = x.world.workers.length
  holding_eq : ∀ (id : ℕ) (phase : WorkerPhase), x.world.workers[id]? = some phase →
    (∀ text, phase ≠ .exited (.panicked text)) → x.custody.holding[id]? = some phase.held?
  fits : ∀ phase ∈ x.world.workers, phase.Fits

namespace Held

variable {w : World} {c : Custody}

theorem of_step (h : Held ⟨w, c⟩) {id : ℕ} {phase next : WorkerPhase} {signal : WorkerSignal}
    {s : Shared} (hphase : w.workers[id]? = some phase)
    (hstep : Worker.Step w.settings.worker id w.shared phase signal next s) :
    c.holding[id]? = some phase.held? :=
  h.holding_eq id phase hphase fun text => Worker.not_exited_of_step hstep (.panicked text)

/-- The step of a worker changes what it holds, as custody has it. -/
theorem worker (h : Held ⟨w, c⟩) {id : ℕ} {phase next : WorkerPhase} {signal : WorkerSignal}
    {s : Shared} (hphase : w.workers[id]? = some phase)
    (hstep : Worker.Step w.settings.worker id w.shared phase signal next s) (s' : Shared) :
    Held ⟨{ w with
      shared := s'
      workers := w.workers.set id next
      activeWorkers := World.remaining w.activeWorkers next }, c.work id phase signal next⟩ := by
  have hlt : id < w.workers.length := (List.getElem?_eq_some_iff.mp hphase).1
  have hlt' : id < c.holding.length := h.length_eq ▸ hlt
  constructor
  case length_eq => exact Custody.length_work.trans (h.length_eq.trans List.length_set.symm)
  case holding_eq =>
    intro id' phase' hphase' hrun
    have hphase' : (w.workers.set id next)[id']? = some phase' := hphase'
    by_cases hne : id' = id
    · subst hne
      rw [List.getElem?_set_self hlt] at hphase'
      cases hphase'
      exact Custody.holding_work_self hlt' hrun
    · rw [List.getElem?_set_ne (Ne.symm hne)] at hphase'
      exact (Custody.holding_work_of_ne hne).trans (h.holding_eq id' phase' hphase' hrun)
  case fits =>
    intro phase' hphase'
    rcases List.mem_or_eq_of_mem_set hphase' with hold | rfl
    · exact h.fits phase' hold
    · exact Worker.fits_step hstep (h.fits phase (List.mem_of_getElem? hphase))

/-- **Every move keeps it.** -/
theorem move (h : Held x) (hmove : x.move m = some x') : Held x' := by
  obtain ⟨w, c⟩ := x
  obtain ⟨w', c'⟩ := x'
  obtain ⟨hworld, hcustody⟩ := move_eq_some hmove
  simp only at hworld hcustody
  subst hcustody
  cases World.move_cases hworld with
  | @worker id phase next signal s hphase hstep =>
    have hlt : id < w.workers.length := (List.getElem?_eq_some_iff.mp hphase).1
    rw [Custody.note_worker hphase (List.getElem?_set_self hlt)]
    exact h.worker hphase hstep _
  | sequencer | cancelRun | cancelRoot => exact ⟨h.length_eq, h.holding_eq, h.fits⟩
  | @heard answer => cases answer <;> exact ⟨h.length_eq, h.holding_eq, h.fits⟩
  | @refreshed signal =>
    cases signal with
    | head answer => cases answer <;> exact ⟨h.length_eq, h.holding_eq, h.fits⟩
    | tick | cancel => exact ⟨h.length_eq, h.holding_eq, h.fits⟩

end Held

/-- The invariant of a run with its history. -/
structure Sound (low size : ℕ) (x : History) : Prop where
  custody : x.custody.Sound low size x.world.shared
  length_eq : x.custody.holding.length = x.world.workers.length
  holding_eq : ∀ (id : ℕ) (phase : WorkerPhase), x.world.workers[id]? = some phase →
    (∀ text, phase ≠ .exited (.panicked text)) → x.custody.holding[id]? = some phase.held?
  panicked : ∀ (id : ℕ) (text : String),
    x.world.workers[id]? = some (.exited (.panicked text)) →
      ∃ r, x.custody.holding[id]? = some (some r)
  fits : ∀ phase ∈ x.world.workers, phase.Fits
  draining : x.world.sequencer.phase = .draining → x.world.shared.isCancelled
  discarded : x.custody.discarded ≠ [] → x.world.shared.isCancelled

namespace Sound

section Moves

variable {w : World} {c : Custody} (h : Sound low size ⟨w, c⟩)
include h

theorem held : Held ⟨w, c⟩ := ⟨h.length_eq, h.holding_eq, h.fits⟩

theorem held_of_step {id : ℕ} {phase next : WorkerPhase} {signal : WorkerSignal} {s : Shared}
    (hphase : w.workers[id]? = some phase)
    (hstep : Worker.Step w.settings.worker id w.shared phase signal next s) :
    c.holding[id]? = some phase.held? :=
  h.held.of_step hphase hstep

theorem worker {id : ℕ} {phase next : WorkerPhase} {signal : WorkerSignal} {s : Shared}
    (hbounded : (Move.worker id signal).Bounded) (hphase : w.workers[id]? = some phase)
    (hstep : Worker.Step w.settings.worker id w.shared phase signal next s) :
    Sound low size ⟨{ w with
      shared := World.attended w.settings id next s
      workers := w.workers.set id next
      activeWorkers := World.remaining w.activeWorkers next }, c.work id phase signal next⟩ := by
  have hlt : id < w.workers.length := (List.getElem?_eq_some_iff.mp hphase).1
  have hfits := h.fits phase (List.mem_of_getElem? hphase)
  have hid := h.held_of_step hphase hstep
  have hheld := h.held.worker hphase hstep (World.attended w.settings id next s)
  have hends := World.ends_attended w.settings id next s
  have hcustody := h.custody.work hid hfits (fun n => Worker.heads_lt hbounded) hstep
  have hcancel : w.shared.isCancelled → (World.attended w.settings id next s).isCancelled :=
    World.cancelled_move (.worker hphase hstep)
  constructor
  case custody => exact hcustody.same hends.planner_eq (.of_eq hends.buffer_eq)
  case length_eq => exact hheld.length_eq
  case holding_eq => exact hheld.holding_eq
  case panicked =>
    intro id' text hphase'
    have hphase' : (w.workers.set id next)[id']? = some (.exited (.panicked text)) := hphase'
    by_cases hne : id' = id
    · subst hne
      rw [List.getElem?_set_self hlt] at hphase'
      cases hphase'
      -- it breaks off while it claims a range, or in a call to the node, which is about one
      cases hstep with
      | @overflowed r p hrun hgrant =>
        rw [Custody.work_of_overflow h.custody.planner_eq hgrant]
        exact ⟨r, List.getElem?_set_self (h.length_eq ▸ hlt)⟩
      | panicked hcalling =>
        obtain rfl | ⟨b, rfl⟩ := hcalling
        · exact ⟨_, hid⟩
        · exact ⟨_, hid⟩
    · rw [List.getElem?_set_ne (Ne.symm hne)] at hphase'
      obtain ⟨r, hr⟩ := h.panicked id' text hphase'
      exact ⟨r, (Custody.holding_work_of_ne hne).trans hr⟩
  case fits => exact hheld.fits
  case draining => exact fun hdraining => hcancel (h.draining hdraining)
  case discarded => exact fun hdiscarded => hcancel (h.discarded hdiscarded)

theorem sequencer {signal : SequencerSignal} {q : Sequencer} {s : Shared}
    (hstep : Sequencer.Step w.sequencer w.shared signal q s) :
    Sound low size ⟨{ w with
      shared := (World.closed w.settings q s).2, sequencer := (World.closed w.settings q s).1 },
      { c with
        popped := c.popped ++ w.sequencer.taken w.shared signal
        discarded := c.discarded ++ w.sequencer.cleared w.shared signal }⟩ := by
  have hends := World.ends_closed w.settings q s
  have hcancel : w.shared.isCancelled → (World.closed w.settings q s).2.isCancelled :=
    World.cancelled_move (.sequencer hstep)
  constructor
  case custody =>
    exact (h.custody.sequence hstep).same hends.planner_eq (.of_eq hends.buffer_eq)
  case length_eq => exact h.length_eq
  case holding_eq => exact h.holding_eq
  case panicked => exact h.panicked
  case fits => exact h.fits
  case draining =>
    intro hdraining
    rcases World.phase_closed w.settings q s with hphase | ⟨result, other, -, hphase⟩
    · exact hcancel (Sequencer.cancelled_of_draining hstep (hphase.symm.trans hdraining))
    · exact absurd (hphase.symm.trans hdraining) (by simp)
  case discarded =>
    intro hdiscarded
    by_cases hdraining : w.sequencer.phase = .draining
    · exact hcancel (h.draining hdraining)
    · have hcleared : w.sequencer.cleared w.shared signal = [] :=
        Sequencer.cleared_eq_nil hdraining
      rw [hcleared, List.append_nil] at hdiscarded
      exact hcancel (h.discarded hdiscarded)

/-- The shutdown of a run does not matter, as long as a cancelled run stays so. -/
theorem cancel {shutdown : Shutdown} (hcancel : shutdown.run) :
    Sound low size ⟨{ w with shared := { w.shared with shutdown := shutdown } }, c⟩ :=
  ⟨h.custody.same rfl (.refl _), h.length_eq, h.holding_eq, h.panicked, h.fits,
    fun _ => hcancel, fun _ => hcancel⟩

end Moves

/-- **Every move keeps the invariant.** -/
theorem move (h : Sound low size x) (hbounded : m.Bounded) (hmove : x.move m = some x') :
    Sound low size x' := by
  obtain ⟨w, c⟩ := x
  obtain ⟨w', c'⟩ := x'
  obtain ⟨hworld, hcustody⟩ := move_eq_some hmove
  simp only at hworld hcustody
  subst hcustody
  cases World.move_cases hworld with
  | @worker id phase next signal s hphase hstep =>
    have hlt : id < w.workers.length := (List.getElem?_eq_some_iff.mp hphase).1
    rw [Custody.note_worker hphase (List.getElem?_set_self hlt)]
    exact h.worker hbounded hphase hstep
  | sequencer hstep => exact h.sequencer hstep
  | @heard answer phase =>
    cases answer with
    | error e => exact { h with }
    | ok head => exact { h with custody := h.custody.observe (hbounded head rfl) }
  | @refreshed signal phase hsignal =>
    have hnote : c.note w (.refresher signal) { w with refresher := phase } = c := by
      cases signal with
      | head answer => exact absurd rfl (hsignal answer)
      | tick | cancel => rfl
    rw [hnote]
    exact { h with }
  | cancelRun => exact h.cancel rfl
  | cancelRoot => exact h.cancel rfl

end Sound

/-! ### The start -/

variable {settings : RunSettings} {standing : Standing} {root : Bool} {size capacity : ℕ}
  {hsize : 0 < size} {hcapacity : 0 < capacity} {slots : ℕ} {head : Except Failure ℕ}

/-- At the start of a run no range was handed out. -/
theorem custody_resumed (hhead : Refresher.Bounded head) :
    (resumed settings standing root hsize hcapacity slots head).custody.Sound standing.floor size
      (resumed settings standing root hsize hcapacity slots head).world.shared := by
  have hlow := standing.floor_lt_resume
  have htop : standing.floor < Height.top := Nat.lt_of_lt_of_le hlow (Height.next_le_top _)
  -- at first nothing is known of the head
  let s : Shared :=
    { standing with
      planner := .start standing.floor size hsize
      buffer := .start (Height.resume standing.store.latestHeight) capacity hcapacity
      shutdown := .start root }
  let c : Custody :=
    ⟨⟨.start standing.floor size hsize, [], [], [], []⟩, List.replicate (max slots 1) none, [], []⟩
  have hstart : c.Sound standing.floor size s := by
    refine ⟨Planner.Record.tracked_start htop hsize, rfl, ?_, .nil, ?_, ?_, hlow⟩
    · rw [List.reduceOption_replicate_none]
      exact .nil
    · intro k d hd
      cases hd
    · have hnone : s.buffer.nextCommit - (standing.floor + 1) = 0 := by
        show Height.resume standing.store.latestHeight - (standing.floor + 1) = 0
        unfold Standing.floor Height.prev
        omega
      rw [hnone]
      rfl
  cases head with
  | error e => exact hstart
  | ok n => exact hstart.observe (hhead n rfl)

theorem held_resumed : Held (resumed settings standing root hsize hcapacity slots head) := by
  have hready : ∀ phase ∈ List.replicate (max slots 1) WorkerPhase.ready, phase = .ready :=
    fun phase => List.eq_of_mem_replicate
  constructor
  case length_eq => exact List.length_replicate.trans List.length_replicate.symm
  case holding_eq =>
    intro id phase hphase hrun
    have hlt : id < (List.replicate (max slots 1) WorkerPhase.ready).length :=
      (List.getElem?_eq_some_iff.mp hphase).1
    rw [List.length_replicate] at hlt
    rw [hready phase (List.mem_of_getElem? hphase)]
    exact (List.getElem?_replicate).trans (if_pos hlt)
  case fits =>
    intro phase hphase
    rw [hready phase hphase]
    trivial

theorem sound_resumed (hhead : Refresher.Bounded head) :
    Sound standing.floor size
      (resumed settings standing root hsize hcapacity slots head) := by
  have hheld : Held (resumed settings standing root hsize hcapacity slots head) := held_resumed
  constructor
  case custody => exact custody_resumed hhead
  case length_eq => exact hheld.length_eq
  case holding_eq => exact hheld.holding_eq
  case panicked =>
    intro id text hphase
    cases List.eq_of_mem_replicate (List.mem_of_getElem? hphase)
  case fits => exact hheld.fits
  case draining => intro hdraining; cases hdraining
  case discarded => intro hdiscarded; exact absurd rfl hdiscarded

/-- **Every run keeps the invariant**, as long as heads stay below the top. -/
theorem sound_after {moves : List Move} (hhead : Refresher.Bounded head)
    (hmoves : ∀ m ∈ moves, m.Bounded)
    (hrun : (resumed settings standing root hsize hcapacity slots head).after moves = some x) :
    Sound standing.floor size x :=
  foldlM_induction hrun (sound_resumed hhead) fun m hm _ _ hx hmove => hx.move (hmoves m hm) hmove

/-! ### The law -/

/-- **The law of who has which range.** -/
structure Accounted (x : History) : Prop where
  /-- The record is that of the planner. -/
  planner_eq : x.custody.record.planner = x.world.shared.planner
  /-- No range is handed out for the first time twice. -/
  nodup : x.custody.record.issued.Nodup
  /-- Each range is released, held by a worker, or let into the buffer, only one of these
  and only once, and nothing else is. -/
  placed : (x.world.shared.planner.released.values ++ x.custody.holding.reduceOption ++
    (x.custody.accepted x.world.shared).map CompletedChunk.range).Perm x.custody.record.issued
  /-- What workers hold is claimed, and nothing else is. -/
  claimed : x.world.shared.planner.claimed.values.Perm x.custody.holding.reduceOption
  /-- Exactly one worker holds a claimed range. -/
  holder : ∀ r ∈ x.world.shared.planner.claimed.values,
    ∃! id : ℕ, x.custody.holding[id]? = some (some r)
  /-- A worker holds what it is fetching or handing on, -/
  holding_eq : ∀ (id : ℕ) (phase : WorkerPhase), x.world.workers[id]? = some phase →
    (∀ text, phase ≠ .exited (.panicked text)) → x.custody.holding[id]? = some phase.held?
  /-- and one that broke off keeps its range. -/
  panicked : ∀ (id : ℕ) (text : String),
    x.world.workers[id]? = some (.exited (.panicked text)) →
      ∃ r, x.custody.holding[id]? = some (some r)
  /-- What was let into the buffer is completed, and nothing else is. -/
  completed : x.custody.record.completed.Perm
    ((x.custody.accepted x.world.shared).map CompletedChunk.range)
  /-- Chunks are thrown away only after the run was cancelled. -/
  discarded : x.custody.discarded ≠ [] → x.world.shared.isCancelled
  /-- A worker asks for a height of the range that it holds. -/
  asked : ∀ (id : ℕ) (phase : WorkerPhase) (job : FetchJob), x.world.workers[id]? = some phase →
    phase.job? = some job →
      x.custody.holding[id]? = some (some job.range) ∧ job.range.Mem job.height
  /-- Two workers hold no height in common. -/
  apart : ∀ (i j : ℕ) (r s : ChunkRange) (n : ℕ), i ≠ j →
    x.custody.holding[i]? = some (some r) → x.custody.holding[j]? = some (some s) →
      r.Mem n → ¬ s.Mem n
  /-- No worker holds a height whose chunk was let in, -/
  settled : ∀ (id : ℕ) (r : ChunkRange) (n : ℕ), x.custody.holding[id]? = some (some r) →
    ∀ d ∈ x.custody.accepted x.world.shared, r.Mem n → ¬ d.range.Mem n
  /-- and what was let in stays so. -/
  stays : ∀ m x', x.move m = some x' → ∀ d ∈ x.custody.accepted x.world.shared,
    d ∈ x'.custody.accepted x'.world.shared
  /-- A chunk that is withdrawn because the run is cancelled is released, and it is not
  in the buffer. -/
  withdrawn : ∀ (id : ℕ) (d : CompletedChunk) (call : CallPhase) (w' : World),
    x.world.workers[id]? = some (.submitting d call) →
      x.world.move (.worker id .cancel) = some w' →
        d.range ∈ w'.shared.planner.released.values ∧
          w'.shared.buffer.chunks = x.world.shared.buffer.chunks ∧
          d ∉ w'.shared.buffer.chunks.values
  /-- Nothing is odd about a move. -/
  quiet : ∀ m w', x.world.move m = some w' → x.world.warnings m w' = []

namespace Sound

variable {low size : ℕ} (h : Sound low size x)
include h

theorem claimed_nodup : x.world.shared.planner.claimed.values.Nodup := by
  have hnodup := h.custody.tracked.placed.nodup_iff.mpr h.custody.tracked.nodup
  rw [h.custody.planner_eq] at hnodup
  exact hnodup.of_append_left.of_append_left

theorem holding_ne {i j : ℕ} {r s : ChunkRange} (hij : i ≠ j)
    (hi : x.custody.holding[i]? = some (some r)) (hj : x.custody.holding[j]? = some (some s)) :
    r ≠ s :=
  ne_of_reduceOption_nodup (h.custody.claimed.nodup_iff.mp h.claimed_nodup) hi hj hij

theorem placed :
    (x.world.shared.planner.released.values ++ x.custody.holding.reduceOption ++
      (x.custody.accepted x.world.shared).map CompletedChunk.range).Perm
        x.custody.record.issued := by
  have hplaced := h.custody.tracked.placed
  rw [h.custody.planner_eq] at hplaced
  refine List.Perm.trans ?_ hplaced
  refine (List.Perm.append_right _ ?_).trans (h.custody.completed.symm.append_left _)
  exact (h.custody.claimed.symm.append_left _).trans List.perm_append_comm

theorem holder (r : ChunkRange) (hr : r ∈ x.world.shared.planner.claimed.values) :
    ∃! id : ℕ, x.custody.holding[id]? = some (some r) := by
  have hmem := List.reduceOption_mem_iff.mp (h.custody.claimed.subset hr)
  obtain ⟨id, hid⟩ := List.mem_iff_getElem?.mp hmem
  refine ⟨id, hid, fun id' hid' => ?_⟩
  by_contra hne
  exact h.holding_ne hne hid' hid rfl

theorem stays (hmove : x.move m = some x') (d : CompletedChunk)
    (hd : d ∈ x.custody.accepted x.world.shared) : d ∈ x'.custody.accepted x'.world.shared := by
  obtain ⟨w, c⟩ := x
  obtain ⟨w', c'⟩ := x'
  obtain ⟨hworld, hcustody⟩ := move_eq_some hmove
  simp only at hworld hcustody
  subst hcustody
  cases World.move_cases hworld with
  | @worker id phase next signal s hphase hstep =>
    have hlt : id < w.workers.length := (List.getElem?_eq_some_iff.mp hphase).1
    have hchunks := h.custody.chunks_work (h.held_of_step hphase hstep) hstep
    rw [Custody.note_worker hphase (List.getElem?_set_self hlt)]
    refine Custody.mem_accepted_of_subset ?_ (List.Subset.refl _) (List.Subset.refl _) hd
    intro e he
    refine List.mem_append_left _ (List.mem_append_left _ ?_)
    rw [World.buffer_attended]
    exact hchunks he
  | @sequencer signal q s hstep =>
    refine Custody.mem_accepted_of_subset ?_ (List.subset_append_left _ _)
      (List.subset_append_left _ _) hd
    intro e he
    unfold Custody.accepted
    rw [World.buffer_closed]
    simp only [Custody.note, List.mem_append]
    rcases Sequencer.chunks_step hstep e he with hin | htaken | hcleared
    · exact Or.inl (Or.inl hin)
    · exact Or.inl (Or.inr (Or.inr htaken))
    · exact Or.inr (Or.inr hcleared)
  | @heard answer => cases answer <;> exact hd
  | @refreshed signal phase hsignal =>
    cases signal with
    | head answer => exact absurd rfl (hsignal answer)
    | tick | cancel => exact hd
  | cancelRun | cancelRoot => exact hd

theorem withdrawn {id : ℕ} {d : CompletedChunk} {call : CallPhase} {w' : World}
    (hphase : x.world.workers[id]? = some (.submitting d call))
    (hmove : x.world.move (.worker id .cancel) = some w') :
    d.range ∈ w'.shared.planner.released.values ∧
      w'.shared.buffer.chunks = x.world.shared.buffer.chunks ∧
      d ∉ w'.shared.buffer.chunks.values := by
  cases World.move_cases hmove with
  | @worker _ phase next _ s hphase' hstep =>
    cases hphase.symm.trans hphase'
    have hid : x.custody.holding[id]? = some (some d.range) := h.held_of_step hphase hstep
    have hfind := h.custody.find_of_held hid
    have hs : s.planner = (x.world.shared.planner.release d.range).2 ∧
        s.buffer = x.world.shared.buffer.forget (.worker id) := by
      cases hstep with
      | withdrew => exact ⟨rfl, rfl⟩
      | stopped hphase => rcases hphase with ⟨hphase, -⟩ | ⟨hphase, -⟩ <;> cases hphase
      | paused hfails | gaveUp hfails | behind hfails => cases hfails
      | abandoned hjob => cases hjob
    have hchunks : s.buffer.chunks = x.world.shared.buffer.chunks := by
      rw [hs.2]
      rfl
    rw [World.planner_attended, World.buffer_attended]
    refine ⟨?_, hchunks, ?_⟩
    · rw [hs.1, Planner.release_claimed hfind, HeightMap.mem_values]
      exact ⟨d.range.first, HeightMap.find?_insert_self _ _ _⟩
    · rw [hchunks]
      intro hd
      obtain ⟨k, hk⟩ := HeightMap.mem_values.mp hd
      exact h.custody.not_mem_of_accepted hid (Custody.accepted_of_find? hk)
        ⟨le_rfl, d.range.ordered⟩ ⟨le_rfl, d.range.ordered⟩

theorem quiet {w' : World} (hmove : x.world.move m = some w') : x.world.warnings m w' = [] := by
  cases World.move_cases hmove with
  | @worker id phase next signal s hphase hstep =>
    have hlt : id < x.world.workers.length := (List.getElem?_eq_some_iff.mp hphase).1
    have hwarnings := h.custody.warnings_eq_nil (h.held_of_step hphase hstep)
      (h.fits phase (List.mem_of_getElem? hphase)) hstep
    unfold World.warnings
    simp only [hphase, List.getElem?_set_self hlt]
    exact hwarnings
  | sequencer | heard | refreshed | cancelRun | cancelRoot => rfl

/-- **The invariant gives the law.** -/
theorem accounted : Accounted x where
  planner_eq := h.custody.planner_eq
  nodup := h.custody.tracked.nodup
  placed := h.placed
  claimed := h.custody.claimed
  holder := h.holder
  holding_eq := h.holding_eq
  panicked := h.panicked
  completed := h.custody.completed
  discarded := h.discarded
  asked := by
    intro id phase job hphase hjob
    have hrun : ∀ text, phase ≠ .exited (.panicked text) := by
      rintro text rfl
      cases hjob
    have hid := h.holding_eq id phase hphase hrun
    rw [WorkerPhase.held?_of_job? hjob] at hid
    exact ⟨hid, ((h.fits phase (List.mem_of_getElem? hphase)).job hjob).mem_height⟩
  apart := by
    intro i j r s n hij hi hj hr hs
    exact h.holding_ne hij hi hj
      (h.custody.tracked.eq_of_mem (h.custody.issued_of_held hi) (h.custody.issued_of_held hj)
        hr hs)
  settled := fun id r n hid d hd hr => h.custody.not_mem_of_accepted hid hd hr
  stays := fun m x' => h.stays
  withdrawn := fun id d call w' => h.withdrawn
  quiet := fun m w' => h.quiet

end Sound

/-- **Each range is in one place.**  Every run above what is stored, with any number of
workers, however it is moved and whenever it is cancelled, has a history that obeys
`Accounted`, as long as heads stay below the top. -/
theorem accounted_of_run {moves : List Move} {w : World} (hhead : Refresher.Bounded head)
    (hmoves : ∀ m ∈ moves, m.Bounded)
    (hrun : (World.resumed settings standing root hsize hcapacity slots head).after moves
      = some w) :
    ∃ x, (resumed settings standing root hsize hcapacity slots head).after moves = some x ∧
      x.world = w ∧ Accounted x := by
  have hworld := world_after (resumed settings standing root hsize hcapacity slots head) moves
  obtain ⟨x, hx, hw⟩ := Option.map_eq_some_iff.mp (hworld.trans hrun)
  exact ⟨x, hx, hw, (sound_after hhead hmoves hx).accounted⟩

/-- Two workers, and room for one chunk: the second worker hands the second height on and
waits with the third one, when the first worker breaks off.  Its range stays with it,
the third height is released, and the second one is thrown away. -/
theorem accounted_of_run_panicked :
    let settings : RunSettings := ⟨⟨⟨1, 1, some 1⟩, 1⟩, ⟨1, 1, some 1⟩, true⟩
    let standing : Standing := ⟨.empty, .start 1 Nat.one_pos, .ofHeight? none, {}⟩
    let start (h : ℕ) : List Move := [.worker 1 .turn,
      .worker 1 (.block (.ok ⟨h, "", "", "", [], .null⟩)), .worker 1 (.results (.ok ⟨h, []⟩)),
      .worker 1 .turn, .worker 1 .turn]
    let moves : List Move := .worker 0 .turn :: start 2 ++ start 3 ++
      [.worker 0 (.panic "lost"), .worker 1 .cancel, .sequencer .cancel, .sequencer .turn]
    let run := World.resumed settings standing false Nat.one_pos Nat.one_pos 2 (.ok 9)
    Refresher.Bounded (.ok 9) ∧ (∀ m ∈ moves, m.Bounded) ∧ ∃ w, run.after moves = some w ∧
      ∃ x : History, x.world = w ∧ Accounted x ∧
        x.custody.holding = [some ⟨1, 1, le_rfl⟩, none] ∧
        x.world.shared.planner.released.values = [⟨3, 3, le_rfl⟩] ∧
        x.custody.discarded.map CompletedChunk.range = [⟨2, 2, le_rfl⟩] := by
  intro settings standing start moves run
  have hhead : Refresher.Bounded (.ok 9) := Refresher.bounded_ok (by decide)
  have hmoves : ∀ m ∈ moves, m.Bounded := by
    simp [moves, start, Move.Bounded]
  have hrun : (run.after moves).isSome := by decide +kernel
  have hplaces : ((resumed settings standing false Nat.one_pos Nat.one_pos 2 (.ok 9)).after
      moves).map (fun x => (x.custody.holding, x.world.shared.planner.released.values,
        x.custody.discarded.map CompletedChunk.range))
      = some ([some ⟨1, 1, le_rfl⟩, none], [⟨3, 3, le_rfl⟩], [⟨2, 2, le_rfl⟩]) := by
    decide +kernel
  obtain ⟨w, hw⟩ := Option.isSome_iff_exists.mp hrun
  obtain ⟨x, hx, hworld, haccounted⟩ := accounted_of_run hhead hmoves hw
  rw [hx, Option.map_some, Option.some.injEq, Prod.mk.injEq, Prod.mk.injEq] at hplaces
  exact ⟨hhead, hmoves, w, hw, x, hworld, haccounted, hplaces⟩

end History
end BlockIngest
