import BlockIngest.Proofs.Pipeline.Admission
import BlockIngest.Proofs.Pipeline.InStep
import BlockIngest.Proofs.Pipeline.Supervision
import Mathlib.Tactic.Ring

/-!
# Fetching runs ahead by a bounded distance

Nowhere is it checked how far fetching is ahead of committing; that it is bounded
follows from how chunks are let in.  Each height between what is committed next and
the cursor lies in a range that a worker holds, in one that was released, in a chunk in
the buffer, or in the one chunk that the sequencer has in hand.  There are no more
ranges under way than workers, and the buffer holds at most one chunk more than there
is room for.  A run that is cancelled hands out nothing more, so that the distance does
not grow then either.

## Main definitions

* `Buffer.Roomy` — how many chunks may be in the buffer.
* `History.Paced` — the invariant.

## Main results

* `History.Sound.cursor_le` — the distance is that of the ranges on their way.
* `History.Paced.move` — **every move keeps the invariant.**
* `World.cursor_le_of_run` — **fetching runs ahead by a bounded distance.**
-/

namespace BlockIngest

/-! ### How many chunks are in the buffer -/

namespace Buffer

variable {b b' : Buffer} {d : CompletedChunk}

/-- There are no more chunks than there is room for, or one more if the due one is among
them. -/
def Roomy (b : Buffer) : Prop :=
  b.chunks.size ≤ b.capacity ∨
    b.chunks.size = b.capacity + 1 ∧ b.chunks.find? b.nextCommit ≠ none

namespace Roomy

variable (h : b.Roomy)
include h

theorem size_le : b.chunks.size ≤ b.capacity + 1 := by
  rcases h with hle | ⟨heq, -⟩
  · omega
  · omega

theorem same (hsame : b.SameChunks b') : b'.Roomy := by
  obtain ⟨hchunks, hnext, hcapacity⟩ := hsame
  unfold Roomy
  rw [hchunks, hnext, hcapacity]
  exact h

/-- A chunk is let in without room only if it is due, and then it was not there. -/
theorem offer (hadmission : b.admission d = .stored)
    (hfree : b.chunks.find? d.range.first = none) : (b.offer d).2.Roomy := by
  have hsize := HeightMap.size_insert (v := d) hfree
  rw [offer_of_stored hadmission]
  obtain ⟨-, hroom | hdue⟩ := admission_eq_stored.mp hadmission
  · refine Or.inl ?_
    show (b.chunks.insert d.range.first d).size ≤ b.capacity
    omega
  · rcases h with hle | ⟨-, hpresent⟩
    · by_cases hfull : b.chunks.size = b.capacity
      · refine Or.inr ⟨?_, ?_⟩
        · show (b.chunks.insert d.range.first d).size = b.capacity + 1
          omega
        · show (b.chunks.insert d.range.first d).find? b.nextCommit ≠ none
          rw [HeightMap.find?_insert, if_pos hdue]
          simp
      · refine Or.inl ?_
        show (b.chunks.insert d.range.first d).size ≤ b.capacity
        omega
    · exact absurd (hdue ▸ hfree) hpresent

/-- Once the due chunk is taken out, there is room for the others. -/
theorem take (hfind : b.chunks.find? b.nextCommit = some d) :
    (b.chunks.erase b.nextCommit).size ≤ b.capacity := by
  have hsize := HeightMap.size_erase hfind
  have hle := h.size_le
  omega

end Roomy
end Buffer

namespace History

variable {x x' : History} {low size slots capacity : ℕ} {m : Move} {w' : World}

/-- **Every move keeps the buffer roomy.** -/
theorem Sound.roomy_move (hsound : Sound low size x) (h : x.world.shared.buffer.Roomy)
    (hmove : x.world.Moved m w') :
    w'.shared.buffer.Roomy ∧ w'.shared.buffer.capacity = x.world.shared.buffer.capacity := by
  cases hmove with
  | @worker id phase next signal s hphase hstep =>
    rw [World.buffer_attended]
    rcases Worker.buffer_step hstep with hsame | ⟨d, rfl, -, hadmission, hin⟩
    · exact ⟨h.same hsame, hsame.capacity_eq⟩
    · have hfree := hsound.custody.find_eq_none (hsound.held_of_step hphase hstep)
      rw [hin]
      refine ⟨(h.offer hadmission hfree).same (Buffer.same_forget _ _), ?_⟩
      rw [Buffer.offer_of_stored hadmission]
      rfl
  | @sequencer signal q s hstep =>
    rw [World.buffer_closed]
    rcases Sequencer.buffer_step hstep with ⟨-, -, hsame⟩ | ⟨d, -, -, hfind, hout⟩ | ⟨-, -, hout⟩
    · exact ⟨h.same hsame, hsame.capacity_eq⟩
    · rw [hout]
      exact ⟨Or.inl (h.take hfind), rfl⟩
    · rw [hout]
      exact ⟨Or.inl (Nat.zero_le _), rfl⟩
  | @heard answer => cases answer <;> exact ⟨h, rfl⟩
  | refreshed | cancelRun | cancelRoot => exact ⟨h, rfl⟩

/-! ### The distance -/

/-- Ranges of at most `n` heights hold at most `n` times as many heights. -/
theorem length_heights_le {rs : List ChunkRange} {n : ℕ} (h : ∀ r ∈ rs, r.size ≤ n) :
    (rs.flatMap ChunkRange.heights).length ≤ rs.length * n := by
  induction rs with
  | nil => exact Nat.zero_le _
  | cons r rs ih =>
    have hr := h r List.mem_cons_self
    have hrs := ih fun s hs => h s (List.mem_cons_of_mem r hs)
    rw [List.flatMap_cons, List.length_append, List.length_cons, ChunkRange.length_heights,
      Nat.succ_mul]
    omega

/-- A run throws chunks away only in a move that finds it cancelled. -/
theorem Sound.discarded_move (h : Sound low size x) (hrun : ¬ x.world.shared.isCancelled)
    (hmove : x.move m = some x') : x'.custody.discarded = [] := by
  have hnone : x.custody.discarded = [] := by
    by_contra hsome
    exact hrun (h.discarded hsome)
  obtain ⟨w, c⟩ := x
  obtain ⟨w', c'⟩ := x'
  obtain ⟨hworld, hcustody⟩ := move_eq_some hmove
  simp only at hworld hcustody hnone hrun
  subst hcustody
  cases World.move_cases hworld with
  | @worker id phase next signal s hphase hstep =>
    have hlt : id < w.workers.length := (List.getElem?_eq_some_iff.mp hphase).1
    rw [Custody.note_worker hphase (List.getElem?_set_self hlt)]
    exact hnone
  | @sequencer signal q s hstep =>
    have hcleared : w.sequencer.cleared w.shared signal = [] :=
      Sequencer.cleared_eq_nil fun hdraining => hrun (h.draining hdraining)
    show c.discarded ++ w.sequencer.cleared w.shared signal = []
    rw [hnone, hcleared, List.append_nil]
  | @heard answer => cases answer <;> exact hnone
  | @refreshed signal phase hsignal =>
    cases signal with
    | head answer => exact absurd rfl (hsignal answer)
    | tick | cancel => exact hnone
  | cancelRun | cancelRoot => exact hnone

/-- **The cursor is ahead of what is due by the ranges that are on their way**, unless chunks
were thrown away. -/
theorem Sound.cursor_le (h : Sound low size x) (hnone : x.custody.discarded = []) :
    x.world.shared.planner.cursor ≤ x.world.shared.buffer.nextCommit +
      (x.world.shared.planner.underWay + x.world.shared.buffer.chunks.size) * size := by
  -- the ranges that were not taken out of the buffer
  obtain ⟨rest, hrest⟩ : ∃ rest, rest = x.world.shared.planner.released.values ++
    x.custody.holding.reduceOption ++
      x.world.shared.buffer.chunks.values.map CompletedChunk.range := ⟨_, rfl⟩
  have hperm : (rest ++ x.custody.popped.map CompletedChunk.range).Perm
      x.custody.record.issued := by
    have hplaced := h.placed
    rw [Custody.accepted, hnone, List.append_nil, List.map_append, ← List.append_assoc,
      ← hrest] at hplaced
    exact hplaced
  -- are as many as those under way and those in the buffer
  have hnumber : rest.length
      = x.world.shared.planner.underWay + x.world.shared.buffer.chunks.size := by
    have hclaimed := h.custody.claimed.length_eq
    rw [HeightMap.length_values] at hclaimed
    rw [hrest, List.length_append, List.length_append, List.length_map, HeightMap.length_values,
      HeightMap.length_values, ← hclaimed, Planner.underWay]
    omega
  -- and with those taken out they hold all heights that were handed out
  have hlength := (hperm.flatMap_right ChunkRange.heights).length_eq
  rw [List.flatMap_append, List.length_append, List.flatMap_map, h.custody.popped_eq,
    h.custody.tracked.covers, h.custody.planner_eq, List.length_range', List.length_range']
    at hlength
  have hsize : (rest.flatMap ChunkRange.heights).length ≤ rest.length * size :=
    length_heights_le fun r hr =>
      h.custody.tracked.size_le r (hperm.subset (List.mem_append_left _ hr))
  have hlow := h.custody.low_lt
  rw [hnumber] at hsize
  omega

end History

/-! ### What moves the cursor -/

/-- Only a range that is asked for may move the cursor. -/
theorem Planner.cursor_answer {p : Planner} {a : Planner.Call} (ha : a ≠ .next) :
    (p.answer a).cursor = p.cursor := by
  cases a with
  | next => exact absurd rfl ha
  | observe n => exact (sameRanges_observe p n).2.1
  | release r =>
    show (p.release r).2.cursor = p.cursor
    unfold release
    split <;> rfl
  | complete r =>
    show (p.complete r).2.cursor = p.cursor
    unfold complete
    split <;> rfl

theorem Planner.cursor_foldl {p : Planner} {calls : List Planner.Call} (hcalls : .next ∉ calls) :
    (calls.foldl answer p).cursor = p.cursor := by
  refine List.foldlRecOn calls answer (motive := fun q => q.cursor = p.cursor) rfl ?_
  intro q hq a ha
  have hne : a ≠ .next := fun heq => hcalls (heq ▸ ha)
  exact (cursor_answer hne).trans hq

namespace World

variable {w w' : World} {m : Move}

/-- A move that finds the run cancelled keeps the cursor. -/
theorem cursor_move (hmove : w.Moved m w') (hcancel : w.shared.isCancelled) :
    w'.shared.planner.cursor = w.shared.planner.cursor := by
  cases hmove with
  | @worker id phase next signal s hphase hstep =>
    rw [planner_attended, Worker.planner_step hstep]
    exact Planner.cursor_foldl (Worker.next_notMem_asks hstep hcancel)
  | @sequencer signal q s hstep =>
    rw [planner_closed, Sequencer.planner_step hstep]
  | @heard answer =>
    cases answer with
    | error e => rfl
    | ok n => exact Planner.cursor_answer (a := .observe n) (by simp)
  | refreshed | cancelRun | cancelRoot => rfl

end World

/-! ### Runs -/

namespace History

variable {x x' : History} {low size slots capacity : ℕ} {m : Move}

/-- The invariant of the distance: besides what keeps it as it is while the run goes on,
the distance itself, for a run that is cancelled. -/
structure Paced (low size slots capacity : ℕ) (x : History) : Prop where
  admits : Admits low size slots x
  inStep : x.world.sequencer.InStep size x.world.shared.buffer
  roomy : x.world.shared.buffer.Roomy
  capacity_eq : x.world.shared.buffer.capacity = capacity
  cursor_le : x.world.shared.planner.cursor
    ≤ x.world.sequencer.nextCommit + (slots + capacity + 2) * size

/-- The ranges on their way, and the chunk in hand, are not too many. -/
theorem Admits.cursor_le (h : Admits low size slots x)
    (hstep : x.world.sequencer.InStep size x.world.shared.buffer)
    (hroomy : x.world.shared.buffer.Roomy) (hnone : x.custody.discarded = []) :
    x.world.shared.planner.cursor ≤ x.world.sequencer.nextCommit +
      (slots + x.world.shared.buffer.capacity + 2) * size := by
  have hcount : x.world.shared.planner.underWay + x.world.shared.buffer.chunks.size
      ≤ slots + x.world.shared.buffer.capacity + 1 := by
    have hunderWay := h.underWay_le
    have hchunks := hroomy.size_le
    omega
  calc x.world.shared.planner.cursor
      ≤ x.world.shared.buffer.nextCommit +
          (x.world.shared.planner.underWay + x.world.shared.buffer.chunks.size) * size :=
        h.sound.cursor_le hnone
    _ ≤ x.world.sequencer.nextCommit + size +
          (slots + x.world.shared.buffer.capacity + 1) * size :=
        Nat.add_le_add hstep.ahead (Nat.mul_le_mul_right size hcount)
    _ = x.world.sequencer.nextCommit + (slots + x.world.shared.buffer.capacity + 2) * size := by
        ring

/-- **Every move keeps the invariant.** -/
theorem Paced.move (h : Paced low size slots capacity x) (hbounded : m.Bounded)
    (hmove : x.move m = some x') : Paced low size slots capacity x' := by
  have hmoved := World.move_cases (move_eq_some hmove).1
  have hadmits := h.admits.move hbounded hmove
  obtain ⟨hstep, hnext⟩ := h.admits.sound.inStep_move h.inStep hmoved
  obtain ⟨hroomy, hcapacity⟩ := h.admits.sound.roomy_move h.roomy hmoved
  have hcapacity := hcapacity.trans h.capacity_eq
  refine ⟨hadmits, hstep, hroomy, hcapacity, ?_⟩
  by_cases hcancel : x.world.shared.isCancelled
  · -- a cancelled run goes on committing at most
    have hcursor := World.cursor_move hmoved hcancel
    have hle := h.cursor_le
    omega
  · -- the move that cancels a run may still hand out a range, and throws nothing away
    have hle := hadmits.cursor_le hstep hroomy (h.admits.sound.discarded_move hcancel hmove)
    rw [hcapacity] at hle
    exact hle

variable {settings : RunSettings} {standing : Standing} {root : Bool} {hsize : 0 < size}
  {hcapacity : 0 < capacity} {head : Except Failure ℕ}

theorem paced_resumed (hslots : 0 < slots) (hhead : Refresher.Bounded head) :
    Paced standing.floor size slots capacity
      (resumed settings standing root hsize hcapacity slots head) := by
  -- fetching starts with what is committed first
  have hcursor : Height.next standing.floor ≤ Height.resume standing.store.latestHeight :=
    (Nat.min_le_left _ _).trans standing.floor_lt_resume
  have hbuffer : (resumed settings standing root hsize hcapacity slots head).world.shared.buffer
      = .start (Height.resume standing.store.latestHeight) capacity hcapacity := by
    cases head <;> rfl
  have hplanner :
      (resumed settings standing root hsize hcapacity slots head).world.shared.planner.cursor
        = Height.next standing.floor := by
    cases head with
    | error e => rfl
    | ok n => exact Planner.cursor_answer (a := .observe n) (by simp)
  refine ⟨admits_resumed hslots hhead, ⟨?_, ?_, ?_⟩, ?_, ?_, ?_⟩
  · rw [hbuffer]
    exact le_rfl
  · rw [hbuffer]
    exact Nat.le_add_right _ _
  · intro fs hfs
    cases hfs
    rw [hbuffer]
    exact ⟨rfl, rfl⟩
  · rw [hbuffer]
    exact Or.inl (Nat.zero_le _)
  · rw [hbuffer]
    rfl
  · rw [hplanner]
    exact hcursor.trans (Nat.le_add_right _ _)

/-- **Every run keeps the invariant**, as long as heads stay below the top. -/
theorem paced_after {moves : List Move} (hslots : 0 < slots) (hhead : Refresher.Bounded head)
    (hmoves : ∀ m ∈ moves, m.Bounded)
    (hrun : (resumed settings standing root hsize hcapacity slots head).after moves = some x) :
    Paced standing.floor size slots capacity x :=
  foldlM_induction hrun (paced_resumed hslots hhead)
    fun m hm _ _ hx hmove => hx.move (hmoves m hm) hmove

end History

namespace World

variable {settings : RunSettings} {standing : Standing} {root : Bool} {size capacity : ℕ}
  {hsize : 0 < size} {hcapacity : 0 < capacity} {head : Except Failure ℕ} {w : World} {slots : ℕ}

/-- **Fetching runs ahead by a bounded distance.**  In every run above what is stored, with
any number of workers and any room in the buffer, however it is moved, the cursor is not
below what is committed next, and above it by no more than the workers, the buffer and
two more chunks hold, as long as heads stay below the top. -/
theorem cursor_le_of_run {moves : List Move} (hslots : 0 < slots) (hhead : Refresher.Bounded head)
    (hmoves : ∀ m ∈ moves, m.Bounded)
    (hrun : (resumed settings standing root hsize hcapacity slots head).after moves = some w) :
    w.sequencer.nextCommit ≤ w.shared.planner.cursor ∧
      w.shared.planner.cursor - w.sequencer.nextCommit ≤ (slots + capacity + 2) * size := by
  have hworld := History.world_after
    (.resumed settings standing root hsize hcapacity slots head) moves
  obtain ⟨x, hx, rfl⟩ := Option.map_eq_some_iff.mp (hworld.trans hrun)
  have h := History.paced_after hslots hhead hmoves hx
  have hnext := h.inStep.le.trans h.admits.sound.custody.nextCommit_le_cursor
  have hcursor := h.cursor_le
  exact ⟨hnext, by omega⟩

/-- Two workers, and room for one chunk of one height: the first height is in hand, the
third one takes up the room, the second one is let in because it is due, and the workers
fetch two more.  The distance is as great as it can be. -/
theorem cursor_le_of_run_full :
    let settings : RunSettings := ⟨⟨⟨1, 1, some 1⟩, 1⟩, ⟨1, 1, some 1⟩, true⟩
    let standing : Standing := ⟨.empty, .start 1 Nat.one_pos, .ofHeight? none, {}⟩
    let store (id h : ℕ) : List Move := [.worker id (.block (.ok ⟨h, "", "", "", [], .null⟩)),
      .worker id (.results (.ok ⟨h, []⟩)), .worker id .turn, .worker id .turn]
    let claim : List Move := [.worker 0 .turn, .worker 1 .turn]
    let moves : List Move := .worker 0 .turn :: store 0 1 ++ [.sequencer .turn, .sequencer .turn] ++
      claim ++ store 1 3 ++ store 0 2 ++ claim
    let run := World.resumed settings standing false Nat.one_pos Nat.one_pos 2 (.ok 9)
    0 < 2 ∧ Refresher.Bounded (.ok 9) ∧ (∀ m ∈ moves, m.Bounded) ∧ ∃ w, run.after moves = some w ∧
      (w.sequencer.nextCommit ≤ w.shared.planner.cursor ∧
        w.shared.planner.cursor - w.sequencer.nextCommit ≤ (2 + 1 + 2) * 1) ∧
      w.sequencer.nextCommit = 1 ∧ w.shared.planner.cursor = 6 ∧
        w.shared.buffer.chunks.keys = [2, 3] := by
  intro settings standing store claim moves run
  have hhead : Refresher.Bounded (.ok 9) := Refresher.bounded_ok (by decide)
  have hmoves : ∀ m ∈ moves, m.Bounded := by
    simp [moves, store, claim, Move.Bounded]
  have hrun : (run.after moves).map (fun w => (w.sequencer.nextCommit, w.shared.planner.cursor,
      w.shared.buffer.chunks.keys)) = some (1, 6, [2, 3]) := by
    decide +kernel
  obtain ⟨w, hw, hstate⟩ := Option.map_eq_some_iff.mp hrun
  simp only [Prod.mk.injEq] at hstate
  exact ⟨Nat.two_pos, hhead, hmoves, w, hw, cursor_le_of_run Nat.two_pos hhead hmoves hw, hstate⟩

end World
end BlockIngest
