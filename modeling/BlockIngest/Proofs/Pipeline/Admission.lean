import BlockIngest.Proofs.Pipeline.Placement

/-!
# Admission never comes to a standstill

A worker that finds the buffer full keeps its range while it waits, so it cannot fetch
anything else.  If the chunk that is due were fetched by nobody, and all workers waited
for room, then nothing would ever go on.  This does not happen: there are never more
ranges under way than workers, a range that was given back is handed out before fresh
ones, and the due chunk is let in whether there is room or not.

## Main definitions

* `World.Blocked` — a worker waits for room.
* `World.Alert` — no worker waits for room with the chunk that is due.
* `World.Unblocked` — the law.

## Main results

* `Custody.Sound.underWay_work` — a step that adds to the ranges under way leaves none
  released.
* `World.Alert.move` — **every move keeps workers alert.**
* `History.Sound.due_pushed` — if all workers hand chunks on, one of them hands on the
  due one.
* `World.unblocked_of_run` — **admission never comes to a standstill.**
-/

namespace BlockIngest

/-! ### Ranges under way -/

namespace Planner

variable {p : Planner} {r : ChunkRange} {x : Call}

/-- How many ranges are claimed or released. -/
def underWay (p : Planner) : ℕ := p.claimed.size + p.released.size

/-- Nothing is released when a fresh range is handed out. -/
theorem released_of_fresh? (hre : p.reissue? = none) (hfr : p.fresh? = some r) :
    p.released.size = 0 := by
  have hregressed := (fresh?_eq_some hfr).1
  unfold reissue? HeightMap.first? at hre
  unfold HeightMap.size
  rcases hentries : p.released.entries with _ | ⟨e, es⟩
  · rfl
  · simp only [hentries, List.head?_cons, hregressed] at hre
    cases hre

/-- Only a range that is asked for may add to those under way. -/
theorem underWay_answer_le (hx : x ≠ .next) : (p.answer x).underWay ≤ p.underWay := by
  unfold underWay
  cases x with
  | next => exact absurd rfl hx
  | observe n =>
    obtain ⟨-, -, hclaimed, hreleased⟩ := sameRanges_observe p n
    exact le_of_eq (by rw [answer, hclaimed, hreleased])
  | release r =>
    by_cases hr : p.claimed.find? r.first = some r
    · have hsize := HeightMap.size_erase hr
      have hle := p.released.size_insert_le r.first r
      rw [answer, release_claimed hr]
      show (p.claimed.erase r.first).size + (p.released.insert r.first r).size ≤ _
      omega
    · rw [answer, release_unclaimed hr]
  | complete r =>
    by_cases hr : p.claimed.find? r.first = some r
    · have hsize := HeightMap.size_erase hr
      rw [answer, complete_claimed hr]
      show (p.claimed.erase r.first).size + p.released.size ≤ _
      omega
    · rw [answer, complete_unclaimed hr]

theorem underWay_foldl_le {calls : List Call} (hcalls : .next ∉ calls) :
    (calls.foldl answer p).underWay ≤ p.underWay := by
  refine List.foldlRecOn calls answer (motive := fun q => q.underWay ≤ p.underWay) le_rfl ?_
  intro q hq a ha
  have hne : a ≠ .next := fun heq => hcalls (heq ▸ ha)
  exact (underWay_answer_le hne).trans hq

/-- A range that is handed out was released, or else nothing is released. -/
theorem Record.Tracked.underWay_next {low size : ℕ} {c : Record} (h : c.Tracked low size) :
    c.planner.next.2.underWay ≤ c.planner.underWay ∨ c.planner.next.2.released.size = 0 := by
  rcases hre : c.planner.reissue? with _ | r
  · rcases hfr : c.planner.fresh? with _ | r
    · rw [next_of_none hre hfr]
      exact Or.inl le_rfl
    · have hnone := released_of_fresh? hre hfr
      rw [next_of_fresh? hre hfr]
      exact Or.inr hnone
  · have hreleased := h.mem_released_iff.mp (Record.released_of_reissue? hre)
    have hsize := HeightMap.size_erase hreleased
    have hle := c.planner.claimed.size_insert_le r.first r
    rw [next_of_reissue? hre]
    refine Or.inl ?_
    show (c.planner.claimed.insert r.first r).size + (c.planner.released.erase r.first).size
      ≤ c.planner.claimed.size + c.planner.released.size
    omega

end Planner

namespace Worker

variable {phase next : WorkerPhase} {signal : WorkerSignal}

theorem next_notMem_heads : .next ∉ heads signal := by
  have hnone : ∀ e : Failure, Planner.Call.next ∉
      ((missing? e).map fun h => Planner.Call.observe (Height.prev h)).toList := by
    intro e hmem
    rw [Option.mem_toList, Option.map_eq_some_iff] at hmem
    obtain ⟨k, -, hnext⟩ := hmem
    cases hnext
  cases signal with
  | block answer | results answer =>
    cases answer with
    | error e => exact hnone e
    | ok => exact List.not_mem_nil
  | turn | elapsed | panic | cancel => exact List.not_mem_nil

/-- A worker that asks for a range asks for nothing else. -/
theorem asks_of_next (h : .next ∈ asks phase signal next) : asks phase signal next = [.next] := by
  unfold asks at h ⊢
  split at h
  case h_1 | h_2 | h_3 => rfl
  case h_4 => simp at h
  case h_5 =>
    rcases List.mem_append.mp h with h | h
    · exact absurd h next_notMem_heads
    · simp at h
  case h_6 => simp at h
  case h_7 => cases h

end Worker

/-- After a step of a worker, there are no more ranges under way than before, or none is
released. -/
theorem Custody.Sound.underWay_work {low size id : ℕ} {s s' : Shared} {c : Custody}
    {settings : Worker.Settings} {phase next : WorkerPhase} {signal : WorkerSignal}
    (h : c.Sound low size s) (hstep : Worker.Step settings id s phase signal next s') :
    s'.planner.underWay ≤ s.planner.underWay ∨ s'.planner.released.size = 0 := by
  rw [Worker.planner_step hstep]
  by_cases hnext : .next ∈ Worker.asks phase signal next
  · rw [Worker.asks_of_next hnext, ← h.planner_eq]
    exact h.tracked.underWay_next
  · exact Or.inl (Planner.underWay_foldl_le hnext)

/-! ### Who listens -/

namespace Worker

variable {settings : Settings} {id : ℕ} {s s' : Shared} {phase next : WorkerPhase}
  {signal : WorkerSignal} {t : TaskId}

/-- A step of a worker makes no other task listen. -/
theorem listeners_step (h : Step settings id s phase signal next s') (ht : t ≠ .worker id)
    (hlistens : t ∈ s'.buffer.listeners) : t ∈ s.buffer.listeners := by
  cases h with
  | listened => exact (Buffer.mem_listen.mp hlistens).resolve_right ht
  | dropped | withdrew => exact (Buffer.mem_forget.mp hlistens).1
  | @admitted d hadmission =>
    have hold : t ∈ (s.buffer.offer d).2.listeners := (Buffer.mem_forget.mp hlistens).1
    rw [Buffer.offer_of_stored hadmission] at hold
    cases hold
  | gaveUp | behind =>
    rw [Shared.buffer_giveUp] at hlistens
    exact hlistens
  | stopped | claimed | overflowed | rested | rose | received | fetched | completed | misfit
  | paused | retried | abandoned | panicked | refused | told => exact hlistens

/-- A worker begins to wait only with a chunk that is not due. -/
theorem not_due_of_waiting {d : CompletedChunk}
    (h : Step settings id s phase signal (.submitting d .waiting) s') :
    d.range.first ≠ s.buffer.nextCommit := by
  cases h with
  | refused hadmission =>
    have hlt := (Buffer.admission_eq_full.mp hadmission).1
    omega

end Worker

namespace Sequencer

variable {q q' : Sequencer} {s s' : Shared} {signal : SequencerSignal} {t : TaskId}

/-- Whoever still listens after a step of the sequencer did so before, and what is due is
the same. -/
theorem listeners_step (h : Step q s signal q' s') (ht : t ≠ .sequencer)
    (hlistens : t ∈ s'.buffer.listeners) :
    t ∈ s.buffer.listeners ∧ s'.buffer.nextCommit = s.buffer.nextCommit := by
  cases h with
  | listened =>
    exact ⟨(Buffer.mem_listen.mp hlistens).resolve_right ht, (s.buffer.same_listen _).nextCommit_eq⟩
  | left => exact ⟨(Buffer.mem_forget.mp hlistens).1, rfl⟩
  | took | brokeOff | ended => cases hlistens
  | missed hphase hrun htake =>
    cases Buffer.take_none htake
    exact ⟨hlistens, rfl⟩
  | woke | wrote | stored | paused | gaveUp | retried | stopped => exact ⟨hlistens, rfl⟩

end Sequencer

namespace World

variable {w w' : World} {m : Move} {slots : ℕ}

/-- A worker waits for room, and no announcement has reached it since it found none. -/
def Blocked (w : World) (id : ℕ) : Prop :=
  (∃ d, w.workers[id]? = some (.submitting d .waiting)) ∧ w.shared.buffer.isListening (.worker id)

/-- No worker waits for room with the chunk that is due. -/
def Alert (w : World) : Prop :=
  ∀ (id : ℕ) (d : CompletedChunk), w.workers[id]? = some (.submitting d .waiting) →
    w.shared.buffer.isListening (.worker id) → d.range.first ≠ w.shared.buffer.nextCommit

/-- **Every move keeps workers alert.** -/
theorem Alert.move (h : w.Alert) (hmove : w.Moved m w') : w'.Alert := by
  intro id d hphase hlistens
  cases hmove with
  | @worker id' phase next signal s hphase' hstep =>
    have hphase : (w.workers.set id' next)[id]? = some (.submitting d .waiting) := hphase
    rw [buffer_attended, Worker.nextCommit_step hstep]
    by_cases hid : id' = id
    · subst hid
      rw [List.getElem?_set_self (List.getElem?_eq_some_iff.mp hphase').1] at hphase
      cases hphase
      exact Worker.not_due_of_waiting hstep
    · rw [List.getElem?_set_ne hid] at hphase
      rw [buffer_attended] at hlistens
      have hmem : TaskId.worker id ∈ s.buffer.listeners := of_decide_eq_true hlistens
      have hold := Worker.listeners_step hstep (by simp [Ne.symm hid]) hmem
      exact h id d hphase (decide_eq_true hold)
  | @sequencer signal q s hstep =>
    rw [buffer_closed] at hlistens ⊢
    have hmem : TaskId.worker id ∈ s.buffer.listeners := of_decide_eq_true hlistens
    obtain ⟨hold, hnext⟩ := Sequencer.listeners_step hstep (by simp) hmem
    rw [hnext]
    exact h id d hphase (decide_eq_true hold)
  | @heard answer => cases answer <;> exact h id d hphase hlistens
  | refreshed | cancelRun | cancelRoot => exact h id d hphase hlistens

end World

/-! ### Who has the due chunk -/

namespace History

variable {x x' : History} {low size slots : ℕ}

/-- If each worker holds a range, then none is released. -/
theorem Sound.released_of_busy (h : Sound low size x)
    (hunderWay : x.world.shared.planner.underWay ≤ x.world.workers.length)
    (hbusy : ∀ id < x.world.workers.length, ∃ r, x.custody.holding[id]? = some (some r)) :
    x.world.shared.planner.released.values = [] := by
  have hall : x.custody.holding.reduceOption.length = x.custody.holding.length := by
    rw [List.reduceOption_length_eq_iff]
    intro held hmem
    obtain ⟨id, hid⟩ := List.mem_iff_getElem?.mp hmem
    have hlt : id < x.world.workers.length := h.length_eq ▸ (List.getElem?_eq_some_iff.mp hid).1
    obtain ⟨r, hr⟩ := hbusy id hlt
    rw [hid] at hr
    cases hr
    rfl
  have hclaimed := h.custody.claimed.length_eq
  rw [HeightMap.length_values, hall, h.length_eq] at hclaimed
  refine List.eq_nil_of_length_eq_zero ?_
  rw [HeightMap.length_values]
  unfold Planner.underWay at hunderWay
  omega

/-- A chunk that was let in and begins with what is due is in the buffer. -/
theorem Sound.find_of_accepted (h : Sound low size x) (hrun : ¬ x.world.shared.isCancelled)
    {d : CompletedChunk} (hd : d ∈ x.custody.accepted x.world.shared)
    (hfirst : d.range.first = x.world.shared.buffer.nextCommit) :
    x.world.shared.buffer.chunks.find? x.world.shared.buffer.nextCommit = some d := by
  rcases List.mem_append.mp hd with hd | hd
  · rcases List.mem_append.mp hd with hd | hd
    · obtain ⟨k, hk⟩ := HeightMap.mem_values.mp hd
      have hkey := h.custody.keyed k d hk
      rw [← hfirst, hkey]
      exact hk
    · -- what was taken out lies below
      have hpopped := (h.custody.mem_popped_iff (n := d.range.first)).mp
        ⟨d, hd, le_rfl, d.range.ordered⟩
      omega
  · exact absurd (h.discarded (List.ne_nil_of_mem hd)) hrun

/-- **If all workers hand chunks on while the due one is not in the buffer, then one of
them hands on the due one.** -/
theorem Sound.due_pushed (h : Sound low size x)
    (hunderWay : x.world.shared.planner.underWay ≤ x.world.workers.length)
    (hworkers : 0 < x.world.workers.length) (hrun : ¬ x.world.shared.isCancelled)
    (habsent : x.world.shared.buffer.chunks.find? x.world.shared.buffer.nextCommit = none)
    (hpush : ∀ phase ∈ x.world.workers, ∃ d call, phase = .submitting d call) :
    ∃ (id : ℕ) (d : CompletedChunk) (call : CallPhase),
      x.world.workers[id]? = some (.submitting d call) ∧
        d.range.first = x.world.shared.buffer.nextCommit := by
  -- each worker holds the range of its chunk, so that none is released
  have hheld : ∀ id < x.world.workers.length, ∃ d call,
      x.world.workers[id]? = some (.submitting d call) ∧
        x.custody.holding[id]? = some (some d.range) := by
    intro id hid
    obtain ⟨d, call, hphase⟩ := hpush _ (List.getElem_mem hid)
    have hget : x.world.workers[id]? = some (.submitting d call) :=
      hphase ▸ List.getElem?_eq_getElem hid
    exact ⟨d, call, hget, h.holding_eq id _ hget (by simp)⟩
  have hreleased := h.released_of_busy hunderWay fun id hid =>
    let ⟨d, _, _, hd⟩ := hheld id hid
    ⟨d.range, hd⟩
  -- what is due lies below the cursor, as the chunk of any worker does
  have hlt : x.world.shared.buffer.nextCommit < x.world.shared.planner.cursor := by
    obtain ⟨d, -, -, hid⟩ := hheld 0 hworkers
    have hle := h.custody.nextCommit_le_of_held hid
    have hlast := (h.custody.tracked.bounds (h.custody.issued_of_held hid)).2
    rw [h.custody.planner_eq] at hlast
    have hordered := d.range.ordered
    omega
  obtain ⟨r, hr, hfirst⟩ := h.custody.exists_due hlt
  have hplace := h.placed.symm.subset hr
  rw [hreleased, List.nil_append, List.mem_append] at hplace
  rcases hplace with hin | hin
  · obtain ⟨id, hid⟩ := List.mem_iff_getElem?.mp (List.reduceOption_mem_iff.mp hin)
    have hlt : id < x.world.workers.length := h.length_eq ▸ (List.getElem?_eq_some_iff.mp hid).1
    obtain ⟨d, call, hphase, hd⟩ := hheld id hlt
    rw [hid] at hd
    cases hd
    exact ⟨id, d, call, hphase, hfirst⟩
  · obtain ⟨d, hd, rfl⟩ := List.mem_map.mp hin
    have hpresent := h.find_of_accepted hrun hd hfirst
    rw [habsent] at hpresent
    cases hpresent

/-! ### Runs -/

/-- The invariant of admission: there are no more ranges under way than workers, and no
worker waits with what is due. -/
structure Admits (low size slots : ℕ) (x : History) : Prop where
  sound : Sound low size x
  alert : x.world.Alert
  length_eq : x.world.workers.length = slots
  underWay_le : x.world.shared.planner.underWay ≤ slots

/-- After a move, there are no more ranges under way than before, or none is released. -/
theorem Sound.underWay_move {w' : World} {m : Move} (h : Sound low size x)
    (hmove : x.world.Moved m w') :
    w'.shared.planner.underWay ≤ x.world.shared.planner.underWay ∨
      w'.shared.planner.released.size = 0 := by
  cases hmove with
  | @worker id phase next signal s hphase hstep =>
    rw [World.planner_attended]
    exact h.custody.underWay_work hstep
  | @sequencer signal q s hstep =>
    rw [World.planner_closed, Sequencer.planner_step hstep]
    exact Or.inl le_rfl
  | @heard answer =>
    cases answer with
    | error e => exact Or.inl le_rfl
    | ok n => exact Or.inl (Planner.underWay_answer_le (x := .observe n) (by simp))
  | refreshed | cancelRun | cancelRoot => exact Or.inl le_rfl

namespace Admits

variable {m : Move}

/-- **Every move keeps the invariant.** -/
theorem move (h : Admits low size slots x) (hbounded : m.Bounded) (hmove : x.move m = some x') :
    Admits low size slots x' := by
  have hsound := h.sound.move hbounded hmove
  have hmoved := World.move_cases (move_eq_some hmove).1
  have hlength := (World.length_workers_move hmoved).trans h.length_eq
  refine ⟨hsound, h.alert.move hmoved, hlength, ?_⟩
  rcases h.sound.underWay_move hmoved with hle | hnone
  · exact hle.trans h.underWay_le
  · -- what is under way is held by workers
    have hclaimed := hsound.custody.claimed.length_eq
    have hheld := x'.custody.holding.reduceOption_length_le
    have hlength' := hsound.length_eq
    rw [HeightMap.length_values] at hclaimed
    unfold Planner.underWay
    omega

end Admits

variable {settings : RunSettings} {standing : Standing} {root : Bool} {size capacity : ℕ}
  {hsize : 0 < size} {hcapacity : 0 < capacity} {slots : ℕ} {head : Except Failure ℕ}

theorem admits_resumed (hslots : 0 < slots) (hhead : Refresher.Bounded head) :
    Admits standing.floor size slots
      (resumed settings standing root hsize hcapacity slots head) := by
  refine ⟨sound_resumed hhead, fun id d hphase => ?_, ?_, ?_⟩
  · have hready : WorkerPhase.submitting d .waiting = .ready :=
      List.eq_of_mem_replicate (List.mem_of_getElem? hphase)
    cases hready
  · exact List.length_replicate.trans (max_eq_left hslots)
  · cases head with
    | error e => exact Nat.zero_le _
    | ok n => exact (Planner.underWay_answer_le (x := .observe n) (by simp)).trans (Nat.zero_le _)

/-- **Every run keeps the invariant**, as long as heads stay below the top. -/
theorem admits_after {moves : List Move} (hslots : 0 < slots) (hhead : Refresher.Bounded head)
    (hmoves : ∀ m ∈ moves, m.Bounded)
    (hrun : (resumed settings standing root hsize hcapacity slots head).after moves = some x) :
    Admits standing.floor size slots x :=
  foldlM_induction hrun (admits_resumed hslots hhead)
    fun m hm _ _ hx hmove => hx.move (hmoves m hm) hmove

end History

namespace World

variable {w : World} {slots : ℕ}

/-- **The law of admission in a run with a number of workers.** -/
structure Unblocked (slots : ℕ) (w : World) : Prop where
  /-- There are no more ranges claimed or released than workers. -/
  counted : w.shared.planner.claimed.size + w.shared.planner.released.size ≤ slots
  /-- Unless the run was cancelled, or the due chunk is in the buffer, some worker does
  not wait for room. -/
  free : ¬ w.shared.isCancelled →
    w.shared.buffer.chunks.find? w.shared.buffer.nextCommit = none →
      ∃ id < slots, ¬ w.Blocked id
  /-- If moreover all workers hand chunks on, then one of them hands on the due chunk; it
  does not wait for room, and its chunk is let in once it looks. -/
  due : ¬ w.shared.isCancelled →
    w.shared.buffer.chunks.find? w.shared.buffer.nextCommit = none →
      (∀ phase ∈ w.workers, ∃ d call, phase = .submitting d call) →
        ∃ (id : ℕ) (d : CompletedChunk) (call : CallPhase),
          w.workers[id]? = some (.submitting d call) ∧
            d.range.first = w.shared.buffer.nextCommit ∧ ¬ w.Blocked id ∧
              w.shared.buffer.admission d = .stored

end World

namespace History.Admits

variable {x : History} {low size slots : ℕ} (h : x.Admits low size slots) (hslots : 0 < slots)
  (hrun : ¬ x.world.shared.isCancelled)
  (habsent : x.world.shared.buffer.chunks.find? x.world.shared.buffer.nextCommit = none)
include h hslots hrun habsent

theorem due (hpush : ∀ phase ∈ x.world.workers, ∃ d call, phase = .submitting d call) :
    ∃ (id : ℕ) (d : CompletedChunk) (call : CallPhase),
      x.world.workers[id]? = some (.submitting d call) ∧
        d.range.first = x.world.shared.buffer.nextCommit ∧ ¬ x.world.Blocked id ∧
          x.world.shared.buffer.admission d = .stored := by
  have hunderWay := h.underWay_le
  rw [← h.length_eq] at hunderWay hslots
  obtain ⟨id, d, call, hphase, hfirst⟩ := h.sound.due_pushed hunderWay hslots hrun habsent hpush
  refine ⟨id, d, call, hphase, hfirst, ?_, ?_⟩
  · rintro ⟨⟨e, he⟩, hlistens⟩
    cases hphase.symm.trans he
    exact h.alert id d he hlistens hfirst
  · exact Buffer.admission_eq_stored.mpr ⟨hfirst.ge, Or.inr hfirst⟩

theorem free : ∃ id < slots, ¬ x.world.Blocked id := by
  by_contra hall
  have hblocked : ∀ id < slots, x.world.Blocked id := by
    intro id hid
    by_contra hfree
    exact hall ⟨id, hid, hfree⟩
  -- workers that all wait for room all hand chunks on
  have hpush : ∀ phase ∈ x.world.workers, ∃ d call, phase = .submitting d call := by
    intro phase hphase
    obtain ⟨id, hid⟩ := List.mem_iff_getElem?.mp hphase
    have hlt : id < slots := h.length_eq ▸ (List.getElem?_eq_some_iff.mp hid).1
    obtain ⟨⟨d, hd⟩, -⟩ := hblocked id hlt
    rw [hid] at hd
    cases hd
    exact ⟨d, .waiting, rfl⟩
  obtain ⟨id, d, call, hphase, -, hfree, -⟩ := h.due hslots hrun habsent hpush
  have hlt : id < slots := h.length_eq ▸ (List.getElem?_eq_some_iff.mp hphase).1
  exact hfree (hblocked id hlt)

end History.Admits

/-- **The invariant gives the law.** -/
theorem History.Admits.unblocked {x : History} {low size slots : ℕ}
    (h : x.Admits low size slots) (hslots : 0 < slots) : x.world.Unblocked slots where
  counted := h.underWay_le
  free := h.free hslots
  due := h.due hslots

namespace World

variable {settings : RunSettings} {standing : Standing} {root : Bool} {size capacity : ℕ}
  {hsize : 0 < size} {hcapacity : 0 < capacity} {head : Except Failure ℕ} {w : World} {slots : ℕ}

/-- **Admission never comes to a standstill.**  Every run above what is stored obeys
`Unblocked`, with any number of workers and any room in the buffer, however it is moved,
as long as heads stay below the top. -/
theorem unblocked_of_run {moves : List Move} (hslots : 0 < slots) (hhead : Refresher.Bounded head)
    (hmoves : ∀ m ∈ moves, m.Bounded)
    (hrun : (resumed settings standing root hsize hcapacity slots head).after moves = some w) :
    w.Unblocked slots := by
  have hworld := History.world_after
    (.resumed settings standing root hsize hcapacity slots head) moves
  obtain ⟨x, hx, rfl⟩ := Option.map_eq_some_iff.mp (hworld.trans hrun)
  exact (History.admits_after hslots hhead hmoves hx).unblocked hslots

/-- Two workers, and room for one chunk: the second worker hands the second height on and
waits for room with the third one.  The first worker has given the first height up, has
got it again, and hands it on, although there is no room. -/
theorem unblocked_of_run_reissued :
    let settings : RunSettings := ⟨⟨⟨1, 1, some 1⟩, 1⟩, ⟨1, 1, some 1⟩, true⟩
    let standing : Standing := ⟨.empty, .start 1 Nat.one_pos, .ofHeight? none, {}⟩
    let fetch (id h : ℕ) : List Move := [.worker id .turn,
      .worker id (.block (.ok ⟨h, "", "", "", [], .null⟩)), .worker id (.results (.ok ⟨h, []⟩)),
      .worker id .turn]
    let moves : List Move := [.worker 0 .turn] ++ fetch 1 2 ++ [.worker 1 .turn] ++ fetch 1 3 ++
      [.worker 1 .turn, .worker 0 (.block (.error (.ofText "no answer")))] ++ fetch 0 1
    let run := World.resumed settings standing false Nat.one_pos Nat.one_pos 2 (.ok 9)
    0 < 2 ∧ Refresher.Bounded (.ok 9) ∧ (∀ m ∈ moves, m.Bounded) ∧ ∃ w, run.after moves = some w ∧
      w.Unblocked 2 ∧ ¬ w.shared.isCancelled ∧ w.shared.buffer.chunks.keys = [2] ∧
        w.workers.map WorkerPhase.held? = [some ⟨1, 1, le_rfl⟩, some ⟨3, 3, le_rfl⟩] ∧
        w.shared.buffer.listeners = [.worker 1, .worker 0] := by
  intro settings standing fetch moves run
  have hhead : Refresher.Bounded (.ok 9) := Refresher.bounded_ok (by decide)
  have hmoves : ∀ m ∈ moves, m.Bounded := by
    have hnone : Failure.Bounded (.ofText "no answer") := by
      intro k hk
      cases hk
    simp [moves, fetch, Move.Bounded, hnone]
  have hrun : (run.after moves).map (fun w => (w.shared.isCancelled, w.shared.buffer.chunks.keys,
      w.workers.map WorkerPhase.held?, w.shared.buffer.listeners))
      = some (false, [2], [some ⟨1, 1, le_rfl⟩, some ⟨3, 3, le_rfl⟩], [.worker 1, .worker 0]) := by
    decide +kernel
  obtain ⟨w, hw, hstate⟩ := Option.map_eq_some_iff.mp hrun
  simp only [Prod.mk.injEq] at hstate
  obtain ⟨hcancel, hstate⟩ := hstate
  exact ⟨Nat.two_pos, hhead, hmoves, w, hw, unblocked_of_run Nat.two_pos hhead hmoves hw,
    by simp [hcancel], hstate⟩

end World
end BlockIngest
