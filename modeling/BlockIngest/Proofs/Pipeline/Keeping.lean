import BlockIngest.Proofs.Pipeline.Placement
import BlockIngest.Proofs.Planner.Places

/-!
# No range gets lost

With heads below the top, each range is in one place only.  Without that bound this is
not so: the range of the top may be handed out twice, and then one of the two workers
that hold it gives it back while the other one hands its chunk on.  What remains true
is that a range stays somewhere.  It is released, or completed and its chunk let into
the buffer, or else it is claimed, and then there is a worker that holds it.

## Main definitions

* `Custody.Kept`, `History.Kept` — the invariant.

## Main results

* `Custody.Kept.part` — what becomes of a range that a worker parts with.
* `History.Kept.move` — **every move keeps the invariant, whatever the heads.**
-/

namespace BlockIngest

namespace Planner

variable {p p' : Planner} {r s : ChunkRange} {x : Call}

theorem claimed_of_next (h : p.next = (some r, p')) :
    p'.claimed = p.claimed.insert r.first r := by
  rcases reissue?_or_fresh?_of_next (congrArg Prod.fst h) with hre | ⟨hre, hfr⟩
  · rw [next_of_reissue? hre] at h
    cases h
    rfl
  · rw [next_of_fresh? hre hfr] at h
    cases h
    rfl

/-- After a range was given back or is done it is not claimed, and no other range is that
was not claimed before. -/
theorem claimed_of_part (hx : x = .release r ∨ x = .complete r)
    (hs : (p.answer x).claimed.find? s.first = some s) :
    p.claimed.find? s.first = some s ∧ s ≠ r := by
  have herase : (p.answer x).claimed
      = if p.isClaimed r then p.claimed.erase r.first else p.claimed := by
    rcases hx with rfl | rfl
    · show (p.release r).2.claimed = _
      unfold release
      split <;> rfl
    · show (p.complete r).2.claimed = _
      unfold complete
      split <;> rfl
  rw [herase] at hs
  split at hs
  · obtain ⟨hne, hold⟩ := HeightMap.of_find?_erase hs
    exact ⟨hold, fun heq => hne (congrArg ChunkRange.first heq).symm⟩
  · next hr =>
    refine ⟨hs, ?_⟩
    rintro rfl
    exact hr (decide_eq_true hs)

end Planner

/-! ### The invariant -/

namespace Custody

/-- What every step keeps, whatever the heads: a claimed range is held, and of a
completed one there is a chunk that was let into the buffer. -/
structure Kept (low : ℕ) (s : Shared) (c : Custody) : Prop where
  handed : c.record.Handed low
  planner_eq : c.record.planner = s.planner
  claimed_held : ∀ r : ChunkRange, s.planner.claimed.find? r.first = some r →
    ∃ id : ℕ, c.holding[id]? = some (some r)
  held_issued : ∀ (id : ℕ) (r : ChunkRange), c.holding[id]? = some (some r) → r ∈ c.record.issued
  completed_accepted : ∀ r ∈ c.record.completed, ∃ d ∈ c.accepted s, d.range = r
  accepted_issued : ∀ d ∈ c.accepted s, d.range ∈ c.record.issued
  keyed : ∀ k d, s.buffer.chunks.find? k = some d → d.range.first = k
  covered : ∀ n, low < n → n < s.buffer.nextCommit → ∃ d ∈ c.popped, d.range.Mem n
  due_le_top : s.buffer.nextCommit ≤ Height.top

variable {low : ℕ} {s s' : Shared} {c c' : Custody} {r : ChunkRange} {d : CompletedChunk} {id : ℕ}
  {x : Planner.Call}

theorem mem_accepted_iff : d ∈ c.accepted s ↔
    (∃ k, s.buffer.chunks.find? k = some d) ∨ d ∈ c.popped ∨ d ∈ c.discarded := by
  unfold accepted
  rw [List.mem_append, List.mem_append, HeightMap.mem_values, or_assoc]

theorem accepted_of_same (hbuffer : s.buffer.SameChunks s'.buffer) :
    c.accepted s' = c.accepted s := by
  unfold accepted
  rw [hbuffer.chunks_eq]

namespace Kept

variable (h : c.Kept low s)

include h

/-- If a range begins below what is due, then its chunk was let in. -/
theorem exists_accepted (hr : r ∈ c.record.issued) (hlt : r.first < s.buffer.nextCommit) :
    ∃ d ∈ c.accepted s, d.range = r := by
  obtain ⟨d, hd, hmem⟩ := h.covered r.first (h.handed.above r hr) hlt
  have hin := accepted_of_popped s hd
  have htop : r.first < Height.top := Nat.lt_of_lt_of_le hlt h.due_le_top
  exact ⟨d, hin, (h.handed.eq_of_mem_first hr (h.accepted_issued d hin) hmem htop).symm⟩

theorem same (hplanner : s'.planner = s.planner) (hbuffer : s.buffer.SameChunks s'.buffer) :
    c.Kept low s' := by
  have haccepted := accepted_of_same (c := c) hbuffer
  obtain ⟨hchunks, hnext, -⟩ := hbuffer
  exact ⟨h.handed, hplanner ▸ h.planner_eq, hplanner ▸ h.claimed_held, h.held_issued,
    haccepted ▸ h.completed_accepted, haccepted ▸ h.accepted_issued, hchunks ▸ h.keyed,
    hnext ▸ h.covered, hnext ▸ h.due_le_top⟩

/-- The planner is told something that is not about a range. -/
theorem tell (hclaimed : (s.planner.answer x).claimed = s.planner.claimed)
    (hcompleted : (c.record.note x).completed = c.record.completed) :
    { c with record := c.record.note x }.Kept low { s with planner := s.planner.answer x } where
  handed := h.handed.note x
  planner_eq := congrArg (Planner.answer · x) h.planner_eq
  claimed_held := by
    intro r hr
    exact h.claimed_held r (hclaimed ▸ hr)
  held_issued id r hid := Planner.Record.issued_subset_note _ x (h.held_issued id r hid)
  completed_accepted := by
    intro r hr
    exact h.completed_accepted r (hcompleted ▸ hr)
  accepted_issued d hd := Planner.Record.issued_subset_note _ x (h.accepted_issued d hd)
  keyed := h.keyed
  covered := h.covered
  due_le_top := h.due_le_top

/-- A worker claims a range, and holds it. -/
theorem claim {p : Planner} (hid : c.holding[id]? = some none)
    (hnext : s.planner.next = (some r, p)) :
    { c with record := c.record.note .next, holding := c.holding.set id (some r) }.Kept
      low { s with planner := p } := by
  have hlt : id < c.holding.length := (List.getElem?_eq_some_iff.mp hid).1
  have hplanner : (c.record.note .next).planner = p := by
    show c.record.planner.next.2 = p
    rw [h.planner_eq, hnext]
  have hclaimed := Planner.claimed_of_next hnext
  have hsubset := Planner.Record.issued_subset_note c.record .next
  refine { h with
    handed := h.handed.note .next, planner_eq := hplanner, claimed_held := ?_, held_issued := ?_,
    completed_accepted := h.completed_accepted,
    accepted_issued := fun d hd => hsubset (h.accepted_issued d hd) }
  · intro u hu
    rw [hclaimed, HeightMap.find?_insert] at hu
    split at hu
    · cases hu
      exact ⟨id, List.getElem?_set_self hlt⟩
    · -- the worker of another range is another one, since this one held nothing
      obtain ⟨id', hid'⟩ := h.claimed_held u hu
      have hne : id ≠ id' := by
        rintro rfl
        cases hid.symm.trans hid'
      exact ⟨id', (List.getElem?_set_ne hne).trans hid'⟩
  · intro id' u hu
    by_cases hne : id = id'
    · subst hne
      have hu : (c.holding.set id (some r))[id]? = some (some u) := hu
      rw [List.getElem?_set_self hlt] at hu
      cases hu
      refine ((h.handed.note .next).claimed_issued r.first r ?_).2
      rw [hplanner, hclaimed]
      exact HeightMap.find?_insert_self _ _ _
    · exact hsubset (h.held_issued id' u ((List.getElem?_set_ne hne).symm.trans hu))

/-- **A worker parts with its range**: it gives it back, or its chunk was let in and the
range is done. -/
theorem part (hid : c.holding[id]? = some (some r))
    (hx : x = .release r ∨ x = .complete r ∧ ∃ d ∈ c.accepted s, d.range = r) :
    { c with record := c.record.note x, holding := c.holding.set id none }.Kept
      low { s with planner := s.planner.answer x } := by
  have hlt : id < c.holding.length := (List.getElem?_eq_some_iff.mp hid).1
  have hcall : x = .release r ∨ x = .complete r := hx.imp_right And.left
  have hsubset := Planner.Record.issued_subset_note c.record x
  refine { h with
    handed := h.handed.note x, planner_eq := congrArg (Planner.answer · x) h.planner_eq,
    claimed_held := ?_, held_issued := ?_, completed_accepted := ?_,
    accepted_issued := fun d hd => hsubset (h.accepted_issued d hd) }
  · intro u hu
    obtain ⟨hclaimed, hur⟩ := Planner.claimed_of_part hcall hu
    obtain ⟨id', hid'⟩ := h.claimed_held u hclaimed
    have hne : id ≠ id' := by
      rintro rfl
      cases hid.symm.trans hid'
      exact hur rfl
    exact ⟨id', (List.getElem?_set_ne hne).trans hid'⟩
  · intro id' u hu
    have hu : (c.holding.set id none)[id']? = some (some u) := hu
    by_cases hne : id = id'
    · subst hne
      rw [List.getElem?_set_self hlt] at hu
      cases hu
    · rw [List.getElem?_set_ne hne] at hu
      exact hsubset (h.held_issued id' u hu)
  · intro u hu
    rcases hx with rfl | ⟨rfl, hin⟩
    · exact h.completed_accepted u hu
    · have hu : u ∈ if (c.record.planner.complete r).1 then c.record.completed ++ [r]
          else c.record.completed := hu
      split at hu
      · rcases List.mem_append.mp hu with hu | hu
        · exact h.completed_accepted u hu
        · cases List.mem_singleton.mp hu
          exact hin
      · exact h.completed_accepted u hu

/-- A chunk is let into the buffer.  If there was another one at its place, then that one
was of the same range. -/
theorem enter (hrange : d.range ∈ c.record.issued) (hplanner : s'.planner = s.planner)
    (hchunks : s'.buffer.chunks = s.buffer.chunks.insert d.range.first d)
    (hnext : s'.buffer.nextCommit = s.buffer.nextCommit) : c.Kept low s' := by
  have hfind : ∀ k, s'.buffer.chunks.find? k
      = if d.range.first = k then some d else s.buffer.chunks.find? k := by
    intro k
    rw [hchunks, HeightMap.find?_insert]
  have hin : d ∈ c.accepted s' := accepted_of_find? ((hfind _).trans (if_pos rfl))
  refine ⟨h.handed, hplanner ▸ h.planner_eq, hplanner ▸ h.claimed_held, h.held_issued, ?_, ?_, ?_,
    hnext ▸ h.covered, hnext ▸ h.due_le_top⟩
  · intro r hr
    obtain ⟨e, he, rfl⟩ := h.completed_accepted r hr
    rcases mem_accepted_iff.mp he with ⟨k, hk⟩ | hout
    · by_cases hfirst : d.range.first = k
      · have hsame : d.range.first = e.range.first := hfirst.trans (h.keyed k e hk).symm
        exact ⟨d, hin, h.handed.first_inj _ hrange _ (h.accepted_issued e he) hsame⟩
      · exact ⟨e, accepted_of_find? ((hfind k).trans (by rw [if_neg hfirst, hk])), rfl⟩
    · exact ⟨e, mem_accepted_iff.mpr (Or.inr hout), rfl⟩
  · intro e he
    rcases mem_accepted_iff.mp he with ⟨k, hk⟩ | hout
    · rw [hfind] at hk
      split at hk
      · cases hk
        exact hrange
      · exact h.accepted_issued e (accepted_of_find? hk)
    · exact h.accepted_issued e (mem_accepted_iff.mpr (Or.inr hout))
  · intro k e he
    rw [hfind] at he
    split at he
    · next hk =>
      cases he
      exact hk
    · exact h.keyed k e he

/-- Chunks leave the buffer: they are taken out, or thrown away. -/
theorem leave (hrecord : c'.record = c.record) (hholding : c'.holding = c.holding)
    (hplanner : s'.planner = s.planner) (haccepted : ∀ d, d ∈ c'.accepted s' ↔ d ∈ c.accepted s)
    (hchunks : ∀ k d, s'.buffer.chunks.find? k = some d → s.buffer.chunks.find? k = some d)
    (hcovered : ∀ n, low < n → n < s'.buffer.nextCommit → ∃ d ∈ c'.popped, d.range.Mem n)
    (htop : s'.buffer.nextCommit ≤ Height.top) : c'.Kept low s' := by
  constructor
  · exact hrecord ▸ h.handed
  · exact hrecord ▸ hplanner ▸ h.planner_eq
  · exact hholding ▸ hplanner ▸ h.claimed_held
  · exact hrecord ▸ hholding ▸ h.held_issued
  · intro r hr
    obtain ⟨d, hd, hdr⟩ := h.completed_accepted r (hrecord ▸ hr)
    exact ⟨d, (haccepted d).mpr hd, hdr⟩
  · intro d hd
    exact hrecord ▸ h.accepted_issued d ((haccepted d).mp hd)
  · exact fun k d hd => h.keyed k d (hchunks k d hd)
  · exact hcovered
  · exact htop

/-- The due chunk is taken out of the buffer. -/
theorem pop (hfind : s.buffer.chunks.find? s.buffer.nextCommit = some d)
    (hplanner : s'.planner = s.planner)
    (hchunks : s'.buffer.chunks = s.buffer.chunks.erase s.buffer.nextCommit)
    (hnext : s'.buffer.nextCommit = Height.next d.range.last) :
    { c with popped := c.popped ++ [d] }.Kept low s' := by
  have hfirst := h.keyed _ d hfind
  have hfind' : ∀ k e, s'.buffer.chunks.find? k = some e ↔
      s.buffer.nextCommit ≠ k ∧ s.buffer.chunks.find? k = some e := by
    intro k e
    rw [hchunks, HeightMap.find?_erase]
    split
    · next hk => simp [hk]
    · next hk => simp [hk]
  refine h.leave rfl rfl hplanner ?_ (fun k e he => ((hfind' k e).mp he).2) ?_ ?_
  · intro e
    simp only [mem_accepted_iff, hfind', List.mem_append, List.mem_singleton]
    constructor
    · rintro (⟨k, -, hk⟩ | (hin | rfl) | hin)
      · exact Or.inl ⟨k, hk⟩
      · exact Or.inr (Or.inl hin)
      · exact Or.inl ⟨_, hfind⟩
      · exact Or.inr (Or.inr hin)
    · rintro (⟨k, hk⟩ | hin | hin)
      · by_cases hdue : s.buffer.nextCommit = k
        · subst hdue
          cases hfind.symm.trans hk
          exact Or.inr (Or.inl (Or.inr rfl))
        · exact Or.inl ⟨k, hdue, hk⟩
      · exact Or.inr (Or.inl (Or.inl hin))
      · exact Or.inr (Or.inr hin)
  · intro n hlow hn
    rw [hnext] at hn
    rcases Nat.lt_or_ge n s.buffer.nextCommit with hlt | hle
    · obtain ⟨e, he, hmem⟩ := h.covered n hlow hlt
      exact ⟨e, List.mem_append_left _ he, hmem⟩
    · refine ⟨d, by simp, ?_⟩
      unfold Height.next Height.add at hn
      exact ⟨by omega, by omega⟩
  · rw [hnext]
    exact Height.next_le_top _

/-- All chunks are thrown away. -/
theorem clear (hplanner : s'.planner = s.planner) (hchunks : s'.buffer.chunks = .empty)
    (hnext : s'.buffer.nextCommit = s.buffer.nextCommit) :
    { c with discarded := c.discarded ++ s.buffer.chunks.values }.Kept low s' := by
  have hnone : ∀ k d, ¬ s'.buffer.chunks.find? k = some d := by
    intro k d hd
    rw [hchunks] at hd
    cases hd
  refine h.leave rfl rfl hplanner ?_ (fun k d hd => absurd hd (hnone k d)) (hnext ▸ h.covered)
    (hnext ▸ h.due_le_top)
  intro d
  simp only [mem_accepted_iff, hnone, List.mem_append, HeightMap.mem_values]
  tauto

end Kept

/-! ### Steps -/

variable {settings : Worker.Settings} {phase next : WorkerPhase} {signal : WorkerSignal}

/-- Nothing changes as long as a worker holds on to its range. -/
theorem Kept.quiet (h : c.Kept low s) (hid : c.holding[id]? = some phase.held?)
    (hheld : next.held? = phase.held?) (hasks : Worker.asks phase signal next = [])
    (hplanner : s'.planner = s.planner) (hbuffer : s.buffer.SameChunks s'.buffer) :
    (c.work id phase signal next).Kept low s' := by
  rw [work_of_quiet hid hheld hasks]
  exact h.same hplanner hbuffer

/-- **A step of a worker keeps the invariant.** -/
theorem Kept.work (h : c.Kept low s) (hid : c.holding[id]? = some phase.held?)
    (hfits : phase.Fits) (hstep : Worker.Step settings id s phase signal next s') :
    (c.work id phase signal next).Kept low s' := by
  have hnext := Worker.fits_step hstep hfits
  cases hstep with
  | stopped hphase =>
    obtain ⟨rfl, rfl⟩ | ⟨rfl, rfl⟩ := hphase
    · exact h.quiet hid rfl rfl rfl (.refl _)
    · exact h.quiet hid rfl rfl rfl (.refl _)
  | rose | received | fetched | retried | refused | told =>
    exact h.quiet hid rfl rfl rfl (.refl _)
  | listened => exact h.quiet hid rfl rfl rfl (s.buffer.same_listen _)
  | completed hassemble hdone hmake =>
    have hrange := (CompletedChunk.range_of_make hmake).1
    exact h.quiet hid (congrArg some hrange) rfl rfl (.refl _)
  | misfit => exact hnext.elim
  | paused hfails =>
    have hheld := WorkerPhase.held?_of_job? hfails.job?_eq
    exact h.quiet hid hheld.symm (by cases hfails <;> rfl) rfl (.refl _)
  | panicked hcalling =>
    obtain rfl | ⟨b, rfl⟩ := hcalling
    · exact h
    · exact h
  | claimed hrun hgrant => exact h.claim hid hgrant
  | overflowed hrun hgrant =>
    rw [work_of_overflow h.planner_eq hgrant]
    exact h.claim hid hgrant
  | rested hrun hgrant =>
    have hsame : c.holding.set id none = c.holding := set_holding hid
    have hwork : c.work id .ready .turn .idle = { c with record := c.record.note .next } := by
      show { c with record := c.record.note .next, holding := c.holding.set id none } = _
      rw [hsame]
    have hanswer : s.planner.answer .next = s.planner := congrArg Prod.snd hgrant
    have htold := h.tell (x := .next) (by rw [hanswer]) rfl
    rw [hanswer] at htold
    exact hwork ▸ htold
  | @gaveUp phase signal job e hfails hmissing =>
    rw [WorkerPhase.held?_of_job? hfails.job?_eq] at hid
    have hasks : Worker.asks phase signal .ready = [.release job.range] := by
      rw [hfails.asks_ready, hfails.heads_eq, hmissing]
      rfl
    rw [work_of_free (Or.inl rfl) hasks]
    exact (h.part hid (Or.inl rfl)).same (Shared.planner_giveUp _ _)
      (.of_eq (Shared.buffer_giveUp _ _))
  | @behind phase signal job e k hfails hmissing =>
    rw [WorkerPhase.held?_of_job? hfails.job?_eq] at hid
    have hasks : Worker.asks phase signal .ready
        = [.observe (Height.prev k), .release job.range] := by
      rw [hfails.asks_ready, hfails.heads_eq, hmissing]
      rfl
    rw [work_of_free (Or.inl rfl) hasks]
    obtain ⟨-, -, hclaimed, -⟩ := Planner.sameRanges_observe s.planner (Height.prev k)
    have htold := h.tell (x := .observe (Height.prev k)) hclaimed rfl
    exact (htold.part hid (Or.inl rfl)).same (Shared.planner_giveUp _ _)
      (.of_eq (Shared.buffer_giveUp _ _))
  | abandoned hjob =>
    rw [WorkerPhase.held?_of_job? hjob] at hid
    rw [work_of_free (Or.inr rfl) (Worker.asks_stopped_of_job? hjob)]
    exact (h.part hid (Or.inl rfl)).same rfl (.refl _)
  | withdrew => exact (h.part hid (Or.inl rfl)).same rfl (s.buffer.same_forget _)
  | @admitted d hadmission =>
    -- the chunk is let in first, and its range is done after that
    have hissued := h.held_issued id d.range hid
    have hoffer := Buffer.offer_of_stored hadmission
    have hchunks : (s.buffer.offer d).2.chunks = s.buffer.chunks.insert d.range.first d := by
      rw [hoffer]
      rfl
    have hentered : c.Kept low { s with buffer := (s.buffer.offer d).2 } :=
      h.enter hissued rfl hchunks (by rw [hoffer]; rfl)
    have hfind : (s.buffer.offer d).2.chunks.find? d.range.first = some d := by
      rw [hchunks, HeightMap.find?_insert_self]
    exact (hentered.part hid (Or.inr ⟨rfl, d, accepted_of_find? hfind, rfl⟩)).same rfl
      (Buffer.same_forget _ _)
  | @dropped d hadmission =>
    have hlt := Buffer.admission_eq_stale.mp hadmission
    have hin := h.exists_accepted (h.held_issued id d.range hid) hlt
    exact (h.part hid (Or.inr ⟨rfl, hin⟩)).same rfl (s.buffer.same_forget _)

/-- **A step of the sequencer keeps the invariant.** -/
theorem Kept.sequence (h : c.Kept low s) {q q' : Sequencer} {signal : SequencerSignal}
    (hstep : Sequencer.Step q s signal q' s') :
    { c with
      popped := c.popped ++ q.taken s signal
      discarded := c.discarded ++ q.cleared s signal }.Kept low s' := by
  have hplanner := Sequencer.planner_step hstep
  rcases Sequencer.buffer_step hstep with ⟨htaken, hcleared, hsame⟩ |
    ⟨d, htaken, hcleared, hfind, hbuffer⟩ | ⟨htaken, hcleared, hbuffer⟩
  · rw [htaken, hcleared, List.append_nil, List.append_nil]
    exact h.same hplanner hsame
  · rw [htaken, hcleared, List.append_nil]
    exact h.pop hfind hplanner (congrArg Buffer.chunks hbuffer) (congrArg Buffer.nextCommit hbuffer)
  · rw [htaken, hcleared, List.append_nil]
    exact h.clear hplanner (by rw [hbuffer]; rfl) (by rw [hbuffer]; rfl)

end Custody

/-! ### Runs -/

namespace History

variable {low : ℕ} {x x' : History} {m : Move}

/-- The invariant of a run with its history, whatever the heads. -/
structure Kept (low : ℕ) (x : History) : Prop where
  held : Held x
  custody : x.custody.Kept low x.world.shared

/-- **Every move keeps the invariant, whatever the heads.** -/
theorem Kept.move (h : Kept low x) (hmove : x.move m = some x') : Kept low x' := by
  refine ⟨h.held.move hmove, ?_⟩
  obtain ⟨w, c⟩ := x
  obtain ⟨w', c'⟩ := x'
  obtain ⟨hworld, hcustody⟩ := move_eq_some hmove
  simp only at hworld hcustody
  subst hcustody
  have hkept := h.custody
  cases World.move_cases hworld with
  | @worker id phase next signal s hphase hstep =>
    have hlt : id < w.workers.length := (List.getElem?_eq_some_iff.mp hphase).1
    have hfits := h.held.fits phase (List.mem_of_getElem? hphase)
    have hends := World.ends_attended w.settings id next s
    rw [Custody.note_worker hphase (List.getElem?_set_self hlt)]
    exact (hkept.work (h.held.of_step hphase hstep) hfits hstep).same hends.planner_eq
      (.of_eq hends.buffer_eq)
  | @sequencer signal q s hstep =>
    have hends := World.ends_closed w.settings q s
    exact (hkept.sequence hstep).same hends.planner_eq (.of_eq hends.buffer_eq)
  | @heard answer phase =>
    cases answer with
    | error e => exact hkept
    | ok head =>
      obtain ⟨-, -, hclaimed, -⟩ := Planner.sameRanges_observe w.shared.planner head
      exact hkept.tell (x := .observe head) hclaimed rfl
  | @refreshed signal phase hsignal =>
    cases signal with
    | head answer => exact absurd rfl (hsignal answer)
    | tick | cancel => exact hkept
  | cancelRun | cancelRoot => exact hkept.same rfl (.refl _)

variable {settings : RunSettings} {standing : Standing} {root : Bool} {size capacity : ℕ}
  {hsize : 0 < size} {hcapacity : 0 < capacity} {slots : ℕ} {head : Except Failure ℕ}

theorem kept_resumed :
    Kept standing.floor (resumed settings standing root hsize hcapacity slots head) := by
  refine ⟨held_resumed, ?_⟩
  have hlow := standing.floor_lt_resume
  have htop : standing.floor < Height.top := Nat.lt_of_lt_of_le hlow (Height.next_le_top _)
  -- at first nothing is known of the head
  let s : Shared :=
    { standing with
      planner := .start standing.floor size hsize
      buffer := .start (Height.resume standing.store.latestHeight) capacity hcapacity
      shutdown := .start root }
  let c : Custody :=
    ⟨⟨.start standing.floor size hsize, [], [], [], []⟩, List.replicate (max slots 1) none, [], []⟩
  have hnone : ∀ (id : ℕ) (r : ChunkRange), c.holding[id]? ≠ some (some r) := by
    intro id r hid
    cases List.eq_of_mem_replicate (List.mem_of_getElem? hid)
  have hstart : c.Kept standing.floor s := by
    constructor
    case handed => exact Planner.Record.handed_start htop hsize
    case planner_eq => rfl
    case claimed_held => intro r hr; cases hr
    case held_issued => exact fun id r hid => absurd hid (hnone id r)
    case completed_accepted => intro r hr; cases hr
    case accepted_issued => intro d hd; cases hd
    case keyed => intro k d hd; cases hd
    case covered =>
      intro n hn hlt
      have hlt : n < Height.resume standing.store.latestHeight := hlt
      unfold Standing.floor Height.prev at hn
      omega
    case due_le_top => exact Height.next_le_top _
  cases head with
  | error e => exact hstart
  | ok n =>
    obtain ⟨-, -, hclaimed, -⟩ := Planner.sameRanges_observe s.planner n
    exact hstart.tell (x := .observe n) hclaimed rfl

/-- **Every run keeps the invariant.** -/
theorem kept_after {moves : List Move}
    (hrun : (resumed settings standing root hsize hcapacity slots head).after moves = some x) :
    Kept standing.floor x :=
  foldlM_induction hrun kept_resumed fun _ _ _ _ hx hmove => hx.move hmove

end History
end BlockIngest
