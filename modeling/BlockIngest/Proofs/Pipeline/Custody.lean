import BlockIngest.Proofs.Pipeline.History

/-!
# Who has which range, step by step

A range is claimed, and its worker holds it, until the worker gives it back or its
chunk is let into the buffer; there the chunk stays until it is taken out, or thrown
away.  The hand-overs are separate steps of different tasks, and each of them moves
one range from one place to another.

That a chunk is never dropped, and never takes the place of another one, follows from
this: the chunks that were taken out hold all heights below the one that is due, and
no range of a worker shares a height with them or with a chunk in the buffer.

## Main definitions

* `Custody.accepted` — the chunks that were let into the buffer.
* `Custody.Sound` — the invariant of what tasks share.

## Main results

* `Custody.Sound.not_mem_of_accepted`, `Custody.Sound.nextCommit_le_of_held` — what a
  worker holds lies apart from what was let in, and not below what is due.
* `Custody.Sound.work`, `Custody.Sound.sequence` — **a step of a worker, and one of the
  sequencer, keeps the invariant.**
-/

namespace BlockIngest

/-! ### Places in a list -/

/-- Writing one place of a list changes one of the values in it. -/
theorem reduceOption_set_perm {α : Type} {l : List (Option α)} {i : ℕ} {a : Option α}
    (h : l[i]? = some a) (b : Option α) :
    (a.toList ++ (l.set i b).reduceOption).Perm (b.toList ++ l.reduceOption) := by
  have hcons : ∀ (x : Option α) (xs : List (Option α)),
      (x :: xs).reduceOption = x.toList ++ xs.reduceOption := by
    intro x xs
    cases x <;> rfl
  induction l generalizing i with
  | nil => cases h
  | cons x xs ih =>
    cases i with
    | zero =>
      cases h
      rw [List.set_cons_zero, hcons, hcons]
      exact List.perm_append_comm_assoc _ _ _
    | succ i =>
      have hxs := (ih h).append_left x.toList
      rw [List.set_cons_succ, hcons, hcons]
      exact (List.perm_append_comm_assoc _ _ _).trans
        (hxs.trans (List.perm_append_comm_assoc _ _ _))

/-- Two places of a list without duplicates hold different values. -/
theorem ne_of_reduceOption_nodup {α : Type} {l : List (Option α)} {i j : ℕ} {a b : α}
    (h : l.reduceOption.Nodup) (hi : l[i]? = some (some a)) (hj : l[j]? = some (some b))
    (hij : i ≠ j) : a ≠ b := by
  have hpair : l.Pairwise fun x y => ∀ u ∈ x, ∀ v ∈ y, u ≠ v := List.pairwise_filterMap.mp h
  obtain ⟨hilt, hi⟩ := List.getElem?_eq_some_iff.mp hi
  obtain ⟨hjlt, hj⟩ := List.getElem?_eq_some_iff.mp hj
  rw [List.pairwise_iff_getElem] at hpair
  rcases Nat.lt_or_gt_of_ne hij with hlt | hlt
  · exact hpair i j hilt hjlt hlt a hi b hj
  · exact (hpair j i hjlt hilt hlt b hj a hi).symm

/-! ### The planner -/

namespace Planner.Record.Tracked

variable {low size : ℕ} {c : Record} {r s : ChunkRange} {p : Planner}

/-- A range that is handed out is claimed besides the others. -/
theorem claimed_next (h : Tracked low size c) (hnext : c.planner.next = (some r, p)) :
    p.claimed.values.Perm (r :: c.planner.claimed.values) := by
  have hr : c.planner.next.1 = some r := congrArg Prod.fst hnext
  rcases reissue?_or_fresh?_of_next hr with hre | ⟨hre, hfr⟩
  · rw [next_of_reissue? hre] at hnext
    cases hnext
    exact HeightMap.values_insert_perm (h.claimed_free_of_released (released_of_reissue? hre))
  · rw [next_of_fresh? hre hfr] at hnext
    cases hnext
    refine HeightMap.values_insert_perm ?_
    rw [(fresh?_eq_some hfr).2.1]
    exact h.claimed_free_of_cursor

end Planner.Record.Tracked

/-! ### The invariant -/

namespace Custody

/-- The chunks that were let into the buffer: they are in it, were taken out, or were
thrown away. -/
def accepted (c : Custody) (s : Shared) : List CompletedChunk :=
  s.buffer.chunks.values ++ c.popped ++ c.discarded

/-- The invariant of what tasks share: claimed ranges are held, completed ones were let
into the buffer, and the chunks that were taken out hold all heights below what is
due. -/
structure Sound (low size : ℕ) (s : Shared) (c : Custody) : Prop where
  tracked : c.record.Tracked low size
  planner_eq : c.record.planner = s.planner
  claimed : s.planner.claimed.values.Perm c.holding.reduceOption
  completed : c.record.completed.Perm ((c.accepted s).map CompletedChunk.range)
  keyed : ∀ k d, s.buffer.chunks.find? k = some d → d.range.first = k
  popped_eq : c.popped.flatMap (fun d => d.range.heights)
    = List.range' (low + 1) (s.buffer.nextCommit - (low + 1))
  low_lt : low < s.buffer.nextCommit

variable {low size : ℕ} {s s' : Shared} {c : Custody} {r : ChunkRange} {d : CompletedChunk}
  {id n : ℕ}

theorem accepted_of_popped (s : Shared) (hd : d ∈ c.popped) : d ∈ c.accepted s :=
  List.mem_append_left _ (List.mem_append_right _ hd)

theorem accepted_of_find? {k : ℕ} (hd : s.buffer.chunks.find? k = some d) : d ∈ c.accepted s :=
  List.mem_append_left _ (List.mem_append_left _ (HeightMap.mem_values.mpr ⟨k, hd⟩))

theorem mem_accepted_of_subset {c' : Custody}
    (hchunks : ∀ e ∈ s.buffer.chunks.values, e ∈ c'.accepted s') (hpopped : c.popped ⊆ c'.popped)
    (hdiscarded : c.discarded ⊆ c'.discarded) (hd : d ∈ c.accepted s) : d ∈ c'.accepted s' := by
  rcases List.mem_append.mp hd with hd | hd
  · rcases List.mem_append.mp hd with hd | hd
    · exact hchunks d hd
    · exact accepted_of_popped s' (hpopped hd)
  · exact List.mem_append_right _ (hdiscarded hd)

namespace Sound

variable (h : c.Sound low size s)

include h

/-! ### What is known of ranges -/

theorem claimed_of_held (hid : c.holding[id]? = some (some r)) :
    r ∈ s.planner.claimed.values :=
  h.claimed.symm.subset (List.reduceOption_mem_iff.mpr (List.mem_of_getElem? hid))

theorem find_of_held (hid : c.holding[id]? = some (some r)) :
    s.planner.claimed.find? r.first = some r := by
  have hmem := h.claimed_of_held hid
  rw [← h.planner_eq] at hmem ⊢
  exact h.tracked.mem_claimed_iff.mp hmem

theorem issued_of_held (hid : c.holding[id]? = some (some r)) : r ∈ c.record.issued :=
  h.tracked.issued_of_claimed (h.planner_eq ▸ h.claimed_of_held hid)

theorem completed_of_accepted (hd : d ∈ c.accepted s) : d.range ∈ c.record.completed :=
  h.completed.symm.subset (List.mem_map_of_mem hd)

theorem issued_of_accepted (hd : d ∈ c.accepted s) : d.range ∈ c.record.issued :=
  h.tracked.issued_of_completed (h.completed_of_accepted hd)

/-- A range of a worker shares no height with a chunk that was let in. -/
theorem not_mem_of_accepted (hid : c.holding[id]? = some (some r)) (hd : d ∈ c.accepted s)
    (hrn : r.Mem n) : ¬ d.range.Mem n := by
  intro hdn
  have heq := h.tracked.eq_of_mem (h.issued_of_held hid) (h.issued_of_accepted hd) hrn hdn
  have hclaimed : r ∈ c.record.planner.claimed.values := h.planner_eq ▸ h.claimed_of_held hid
  exact h.tracked.separate.2.1 hclaimed (heq ▸ h.completed_of_accepted hd)

/-- The chunks that were taken out hold all heights below what is due, and no others. -/
theorem mem_popped_iff :
    (∃ d ∈ c.popped, d.range.Mem n) ↔ low < n ∧ n < s.buffer.nextCommit := by
  have hmem : n ∈ c.popped.flatMap (fun d => d.range.heights) ↔ ∃ d ∈ c.popped, d.range.Mem n := by
    simp only [List.mem_flatMap, ChunkRange.mem_heights]
  rw [← hmem, h.popped_eq, List.mem_range'_1]
  have hlow := h.low_lt
  omega

/-- A range that begins below what is due shares its lowest height with a chunk that was
taken out. -/
theorem exists_popped (hr : r ∈ c.record.issued) (hlt : ¬ s.buffer.nextCommit ≤ r.first) :
    ∃ d ∈ c.popped, d.range.Mem r.first :=
  h.mem_popped_iff.mpr ⟨(h.tracked.bounds hr).1, Nat.lt_of_not_le hlt⟩

/-- A range that was handed out begins at what is due, if it does not end below. -/
theorem nextCommit_le_first (hr : r ∈ c.record.issued) (hlast : s.buffer.nextCommit ≤ r.last) :
    s.buffer.nextCommit ≤ r.first := by
  by_contra hlt
  obtain ⟨d, hd, hmem⟩ := h.exists_popped hr hlt
  -- the chunk with the lowest height is the whole range, and would not have ended yet
  have heq : r = d.range := h.tracked.eq_of_mem hr
    (h.issued_of_accepted (accepted_of_popped s hd)) ⟨le_rfl, r.ordered⟩ hmem
  have hdlast := (h.mem_popped_iff (n := d.range.last)).mp ⟨d, hd, d.range.ordered, le_rfl⟩
  rw [← heq] at hdlast
  omega

/-- A range of a worker does not lie below what is due. -/
theorem nextCommit_le_of_held (hid : c.holding[id]? = some (some r)) :
    s.buffer.nextCommit ≤ r.first := by
  by_contra hlt
  obtain ⟨d, hd, hmem⟩ := h.exists_popped (h.issued_of_held hid) hlt
  exact h.not_mem_of_accepted hid (accepted_of_popped s hd) ⟨le_rfl, r.ordered⟩ hmem

/-- A chunk that a worker hands on is not dropped. -/
theorem admission_ne_stale (hid : c.holding[id]? = some (some d.range)) :
    s.buffer.admission d ≠ .stale := by
  rw [ne_eq, Buffer.admission_eq_stale]
  have hle := h.nextCommit_le_of_held hid
  omega

/-- Nor does it take the place of another one. -/
theorem find_eq_none (hid : c.holding[id]? = some (some d.range)) :
    s.buffer.chunks.find? d.range.first = none := by
  by_contra hne
  obtain ⟨e, he⟩ := Option.ne_none_iff_exists'.mp hne
  have hfirst := h.keyed _ e he
  exact h.not_mem_of_accepted hid (accepted_of_find? he) ⟨le_rfl, d.range.ordered⟩
    ⟨hfirst.le, hfirst ▸ e.range.ordered⟩

/-- What is due was handed out, or is handed out next. -/
theorem nextCommit_le_cursor :
    s.buffer.nextCommit ≤ s.planner.cursor := by
  have hlow := h.low_lt
  have hcursor := h.tracked.low_lt_cursor
  rw [h.planner_eq] at hcursor
  by_cases hfirst : s.buffer.nextCommit = low + 1
  · omega
  · obtain ⟨d, hd, hmem⟩ := (h.mem_popped_iff (n := s.buffer.nextCommit - 1)).mpr (by omega)
    have hlast := (h.tracked.bounds (h.issued_of_accepted (accepted_of_popped s hd))).2
    rw [h.planner_eq] at hlast
    have hle := hmem.2
    omega

/-- If what is due was handed out, then there is a range that begins with it. -/
theorem exists_due (hlt : s.buffer.nextCommit < s.planner.cursor) :
    ∃ r ∈ c.record.issued, r.first = s.buffer.nextCommit := by
  have hlow := h.low_lt
  have hcovers := h.tracked.covers
  rw [h.planner_eq] at hcovers
  have hmem : s.buffer.nextCommit ∈ c.record.issued.flatMap ChunkRange.heights := by
    rw [hcovers, List.mem_range'_1]
    omega
  obtain ⟨r, hr, hin⟩ := List.mem_flatMap.mp hmem
  obtain ⟨hfirst, hlast⟩ := ChunkRange.mem_heights.mp hin
  exact ⟨r, hr, Nat.le_antisymm hfirst (h.nextCommit_le_first hr hlast)⟩

/-! ### What a step changes -/

theorem same (hplanner : s'.planner = s.planner) (hbuffer : s.buffer.SameChunks s'.buffer) :
    c.Sound low size s' := by
  obtain ⟨hchunks, hnext, -⟩ := hbuffer
  have haccepted : c.accepted s' = c.accepted s := by
    unfold accepted
    rw [hchunks]
  exact ⟨h.tracked, hplanner ▸ h.planner_eq, hplanner ▸ h.claimed, haccepted ▸ h.completed,
    hchunks ▸ h.keyed, hnext ▸ h.popped_eq, hnext ▸ h.low_lt⟩

/-- The planner learns about a head. -/
theorem observe (hn : n < Height.top) :
    { c with record := c.record.note (.observe n) }.Sound low size (s.observe n) := by
  obtain ⟨-, -, hclaimed, -⟩ := Planner.sameRanges_observe s.planner n
  refine { h with tracked := h.tracked.note_observe hn, planner_eq := ?_, claimed := ?_ }
  · show (c.record.planner.observe n).2 = (s.planner.observe n).2
    rw [h.planner_eq]
  · show (s.planner.observe n).2.claimed.values.Perm _
    rw [hclaimed]
    exact h.claimed

/-- A worker claims a range, and holds it. -/
theorem claim {p : Planner} (hid : c.holding[id]? = some none)
    (hnext : s.planner.next = (some r, p)) :
    { c with record := c.record.note .next, holding := c.holding.set id (some r) }.Sound
      low size { s with planner := p } := by
  rw [← h.planner_eq] at hnext
  have hclaimed := h.tracked.claimed_next hnext
  refine { h with tracked := h.tracked.note (by simp), planner_eq := ?_, claimed := ?_ }
  · exact congrArg Prod.snd hnext
  · have hset := reduceOption_set_perm hid (some r)
    exact hclaimed.trans (((h.planner_eq ▸ h.claimed).cons r).trans hset.symm)

theorem claimed_erase (hid : c.holding[id]? = some (some r)) :
    (s.planner.claimed.erase r.first).values.Perm (c.holding.set id none).reduceOption := by
  have hset := reduceOption_set_perm hid none
  have hclaimed := HeightMap.values_erase_perm (h.find_of_held hid)
  exact List.Perm.cons_inv (hclaimed.symm.trans (h.claimed.trans hset.symm))

/-- A worker gives its range back. -/
theorem release (hid : c.holding[id]? = some (some r))
    (hplanner : s'.planner = (s.planner.release r).2)
    (hbuffer : s.buffer.SameChunks s'.buffer) :
    { c with record := c.record.note (.release r), holding := c.holding.set id none }.Sound
      low size s' := by
  have hfind := h.find_of_held hid
  obtain ⟨hchunks, hnext, -⟩ := hbuffer
  constructor
  · exact h.tracked.note_release (h.planner_eq ▸ hfind)
  · rw [hplanner, ← h.planner_eq]
    rfl
  · rw [hplanner, Planner.release_claimed hfind]
    exact h.claimed_erase hid
  · show c.record.completed.Perm _
    unfold accepted
    rw [hchunks]
    exact h.completed
  · exact hchunks ▸ h.keyed
  · exact hnext ▸ h.popped_eq
  · exact hnext ▸ h.low_lt

/-- The chunk of a worker is let into the buffer, and its range is done. -/
theorem accept (hid : c.holding[id]? = some (some d.range))
    (hplanner : s'.planner = (s.planner.complete d.range).2)
    (hchunks : s'.buffer.chunks = s.buffer.chunks.insert d.range.first d)
    (hnext : s'.buffer.nextCommit = s.buffer.nextCommit) :
    { c with record := c.record.note (.complete d.range), holding := c.holding.set id none }.Sound
      low size s' := by
  have hfind := h.find_of_held hid
  have hfind' : c.record.planner.claimed.find? d.range.first = some d.range := h.planner_eq ▸ hfind
  constructor
  · exact h.tracked.note_complete hfind'
  · rw [hplanner, ← h.planner_eq]
    rfl
  · rw [hplanner, Planner.complete_claimed hfind]
    exact h.claimed_erase hid
  · have hcompleted : (c.record.note (.complete d.range)).completed
        = c.record.completed ++ [d.range] := by
      show (if (c.record.planner.complete d.range).1 then _ else _) = _
      rw [Planner.complete_claimed hfind', if_pos rfl]
    show (c.record.note (.complete d.range)).completed.Perm
      ((s'.buffer.chunks.values ++ c.popped ++ c.discarded).map CompletedChunk.range)
    rw [hcompleted, hchunks]
    refine (List.perm_append_singleton _ _).trans ((h.completed.cons _).trans ?_)
    have hinsert := HeightMap.values_insert_perm (v := d) (h.find_eq_none hid)
    exact (((hinsert.append_right _).append_right _).map CompletedChunk.range).symm
  · intro k e he
    rcases HeightMap.of_find?_insert (hchunks ▸ he) with ⟨hk, rfl⟩ | ⟨-, hold⟩
    · exact hk
    · exact h.keyed k e hold
  · exact hnext ▸ h.popped_eq
  · exact hnext ▸ h.low_lt

/-- The due chunk is taken out of the buffer. -/
theorem pop (hfind : s.buffer.chunks.find? s.buffer.nextCommit = some d)
    (hplanner : s'.planner = s.planner)
    (hchunks : s'.buffer.chunks = s.buffer.chunks.erase s.buffer.nextCommit)
    (hnext : s'.buffer.nextCommit = Height.next d.range.last) :
    { c with popped := c.popped ++ [d] }.Sound low size s' := by
  have hfirst := h.keyed _ d hfind
  have hordered := d.range.ordered
  have hlow := h.low_lt
  have hlast : Height.next d.range.last = d.range.last + 1 := by
    have hbounds := h.tracked.bounds (h.issued_of_accepted (accepted_of_find? hfind))
    have htop := h.tracked.cursor_le_top
    exact Height.next_of_lt (by omega)
  rw [hlast] at hnext
  refine ⟨h.tracked, hplanner ▸ h.planner_eq, hplanner ▸ h.claimed, ?_, ?_, ?_, ?_⟩
  · refine h.completed.trans (List.Perm.map _ ?_)
    show (s.buffer.chunks.values ++ c.popped ++ c.discarded).Perm
      (s'.buffer.chunks.values ++ (c.popped ++ [d]) ++ c.discarded)
    have herase := HeightMap.values_erase_perm hfind
    have hsplit : s'.buffer.chunks.values ++ (c.popped ++ [d]) ++ c.discarded
        = s'.buffer.chunks.values ++ c.popped ++ d :: c.discarded := by simp
    rw [hsplit, hchunks]
    exact ((herase.append_right _).append_right _).trans List.perm_middle.symm
  · intro k e he
    exact h.keyed k e (HeightMap.of_find?_erase (hchunks ▸ he)).2
  · have hstart : low + 1 + (s.buffer.nextCommit - (low + 1)) = d.range.first := by omega
    have hlength : d.range.last + 1 - (low + 1)
        = s.buffer.nextCommit - (low + 1) + d.range.size := by
      unfold ChunkRange.size
      omega
    show (c.popped ++ [d]).flatMap (fun d => d.range.heights) = _
    rw [List.flatMap_append, h.popped_eq, List.flatMap_singleton, hnext, hlength,
      ← List.range'_append_1, hstart]
    rfl
  · omega

/-- All chunks are thrown away. -/
theorem clear (hplanner : s'.planner = s.planner) (hchunks : s'.buffer.chunks = .empty)
    (hnext : s'.buffer.nextCommit = s.buffer.nextCommit) :
    { c with discarded := c.discarded ++ s.buffer.chunks.values }.Sound low size s' := by
  refine ⟨h.tracked, hplanner ▸ h.planner_eq, hplanner ▸ h.claimed, ?_, ?_, hnext ▸ h.popped_eq,
    hnext ▸ h.low_lt⟩
  · refine h.completed.trans (List.Perm.map _ ?_)
    show (s.buffer.chunks.values ++ c.popped ++ c.discarded).Perm
      (s'.buffer.chunks.values ++ c.popped ++ (c.discarded ++ s.buffer.chunks.values))
    rw [hchunks, ← List.append_assoc, List.append_assoc]
    exact List.perm_append_comm
  · intro k e he
    rw [hchunks] at he
    cases he

end Sound

/-! ### Steps -/

variable {settings : Worker.Settings} {phase next : WorkerPhase} {signal : WorkerSignal}

theorem set_holding {held : Option ChunkRange} (hid : c.holding[id]? = some held) :
    c.holding.set id held = c.holding := by
  obtain ⟨hlt, rfl⟩ := List.getElem?_eq_some_iff.mp hid
  exact List.set_getElem_self hlt

/-- A worker that becomes free gives its range up, and makes its calls. -/
theorem work_of_free {calls : List Planner.Call}
    (hnext : next = .ready ∨ next = .exited .stopped)
    (hasks : Worker.asks phase signal next = calls) :
    c.work id phase signal next
      = { c with
          record := calls.foldl Planner.Record.note c.record
          holding := c.holding.set id none } := by
  unfold work
  rw [hasks]
  rcases hnext with rfl | rfl <;> rfl

/-- A worker that breaks off while it claims a range holds it. -/
theorem work_of_overflow {p : Planner} {text : String} (hplanner : c.record.planner = s.planner)
    (hnext : s.planner.next = (some r, p)) :
    c.work id .ready signal (.exited (.panicked text))
      = { c with
          record := c.record.note .next
          holding := c.holding.set id (some r) } := by
  show Custody.mk _ (c.holding.set id c.record.planner.next.1) _ _ = _
  rw [hplanner, hnext]
  rfl

/-- Nothing changes as long as a worker holds on to its range. -/
theorem work_of_quiet (hid : c.holding[id]? = some phase.held?) (hheld : next.held? = phase.held?)
    (hasks : Worker.asks phase signal next = []) : c.work id phase signal next = c := by
  unfold work
  rw [hasks, hheld, set_holding hid]
  split
  · split
    · cases hasks
    · rfl
  · rfl

theorem Sound.quiet (h : c.Sound low size s) (hid : c.holding[id]? = some phase.held?)
    (hheld : next.held? = phase.held?) (hasks : Worker.asks phase signal next = [])
    (hplanner : s'.planner = s.planner) (hbuffer : s.buffer.SameChunks s'.buffer) :
    (c.work id phase signal next).Sound low size s' := by
  rw [work_of_quiet hid hheld hasks]
  exact h.same hplanner hbuffer

/-- **A step of a worker keeps the invariant.** -/
theorem Sound.work (h : c.Sound low size s) (hid : c.holding[id]? = some phase.held?)
    (hfits : phase.Fits) (hheads : ∀ n, .observe n ∈ Worker.heads signal → n < Height.top)
    (hstep : Worker.Step settings id s phase signal next s') :
    (c.work id phase signal next).Sound low size s' := by
  have hnext := Worker.fits_step hstep hfits
  cases hstep with
  | stopped hphase =>
    obtain ⟨rfl, rfl⟩ | ⟨rfl, rfl⟩ := hphase
    · exact h.quiet hid rfl rfl rfl (.refl _)
    · exact h.quiet hid rfl rfl rfl (.refl _)
  | rose | received | fetched | retried | refused | told =>
    exact h.quiet hid rfl rfl rfl (.refl _)
  | listened => exact h.quiet hid rfl rfl rfl (s.buffer.same_listen _)
  | completed hassemble hdone hmake =>
    have hrange := (CompletedChunk.range_of_make hmake).1
    exact h.quiet hid (congrArg some hrange) rfl rfl (.refl _)
  | misfit => exact hnext.elim
  | paused hfails =>
    have hheld := WorkerPhase.held?_of_job? hfails.job?_eq
    exact h.quiet hid hheld.symm (by cases hfails <;> rfl) rfl (.refl _)
  | panicked hcalling =>
    -- a worker that breaks off keeps what it holds
    obtain rfl | ⟨b, rfl⟩ := hcalling
    · exact h
    · exact h
  | claimed hrun hgrant => exact h.claim hid hgrant
  | overflowed hrun hgrant =>
    rw [work_of_overflow h.planner_eq hgrant]
    exact h.claim hid hgrant
  | rested hrun hgrant =>
    have hsame : c.holding.set id none = c.holding := set_holding hid
    have hwork : c.work id .ready .turn .idle = { c with record := c.record.note .next } := by
      show { c with record := c.record.note .next, holding := c.holding.set id none } = _
      rw [hsame]
    rw [hwork]
    refine { h with tracked := h.tracked.note (by simp), planner_eq := ?_ }
    exact (congrArg (fun p => p.next.2) h.planner_eq).trans (congrArg Prod.snd hgrant)
  | @gaveUp phase signal job e hfails hmissing =>
    rw [WorkerPhase.held?_of_job? hfails.job?_eq] at hid
    have hasks : Worker.asks phase signal .ready = [.release job.range] := by
      rw [hfails.asks_ready, hfails.heads_eq, hmissing]
      rfl
    rw [work_of_free (Or.inl rfl) hasks]
    exact h.release hid (Shared.planner_giveUp _ _) (.of_eq (Shared.buffer_giveUp _ _))
  | @behind phase signal job e k hfails hmissing =>
    rw [WorkerPhase.held?_of_job? hfails.job?_eq] at hid
    have hhead : Worker.heads signal = [.observe (Height.prev k)] := by
      rw [hfails.heads_eq, hmissing]
      rfl
    have hasks : Worker.asks phase signal .ready
        = [.observe (Height.prev k), .release job.range] := by
      rw [hfails.asks_ready, hhead]
      rfl
    rw [work_of_free (Or.inl rfl) hasks]
    have hobserved := h.observe (hheads (Height.prev k) (by rw [hhead]; simp))
    exact hobserved.release hid (Shared.planner_giveUp _ _) (.of_eq (Shared.buffer_giveUp _ _))
  | abandoned hjob =>
    rw [WorkerPhase.held?_of_job? hjob] at hid
    rw [work_of_free (Or.inr rfl) (Worker.asks_stopped_of_job? hjob)]
    exact h.release hid rfl (.refl _)
  | withdrew => exact h.release hid rfl (s.buffer.same_forget _)
  | @admitted d hadmission =>
    refine h.accept hid rfl ?_ ?_
    · show (s.buffer.offer d).2.chunks = _
      rw [Buffer.offer_of_stored hadmission]
      rfl
    · show (s.buffer.offer d).2.nextCommit = _
      rw [Buffer.offer_of_stored hadmission]
      rfl
  | dropped hadmission => exact absurd hadmission (h.admission_ne_stale hid)

/-- No step of a worker takes a chunk out of the buffer. -/
theorem Sound.chunks_work (h : c.Sound low size s) (hid : c.holding[id]? = some phase.held?)
    (hstep : Worker.Step settings id s phase signal next s') :
    s.buffer.chunks.values ⊆ s'.buffer.chunks.values := by
  rcases Worker.buffer_step hstep with hsame | ⟨d, rfl, rfl, hadmission, hin⟩
  · rw [hsame.chunks_eq]
    exact List.Subset.refl _
  · -- its own chunk comes in beside the others
    have hinsert := HeightMap.values_insert_perm (v := d) (h.find_eq_none hid)
    rw [hin, Buffer.offer_of_stored hadmission]
    exact fun e he => hinsert.symm.subset (List.mem_cons_of_mem d he)

/-- **A step of the sequencer keeps the invariant.** -/
theorem Sound.sequence (h : c.Sound low size s) {q q' : Sequencer} {signal : SequencerSignal}
    (hstep : Sequencer.Step q s signal q' s') :
    { c with
      popped := c.popped ++ q.taken s signal
      discarded := c.discarded ++ q.cleared s signal }.Sound low size s' := by
  have hplanner := Sequencer.planner_step hstep
  rcases Sequencer.buffer_step hstep with ⟨htaken, hcleared, hsame⟩ |
    ⟨d, htaken, hcleared, hfind, hbuffer⟩ | ⟨htaken, hcleared, hbuffer⟩
  · rw [htaken, hcleared, List.append_nil, List.append_nil]
    exact h.same hplanner hsame
  · rw [htaken, hcleared, List.append_nil]
    exact h.pop hfind hplanner (congrArg Buffer.chunks hbuffer) (congrArg Buffer.nextCommit hbuffer)
  · rw [htaken, hcleared, List.append_nil]
    exact h.clear hplanner (by rw [hbuffer]; rfl) (by rw [hbuffer]; rfl)

end Custody

end BlockIngest
