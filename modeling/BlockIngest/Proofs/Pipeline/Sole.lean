import BlockIngest.Proofs.Pipeline.Keeping

/-!
# Below the top a range has one holder

With a head at the top the range of the top may be handed out twice, and nothing is then known of
the worker that holds it.  No other range is touched by this.  One that begins below the top is
held by one worker at most, it is claimed as long as it is held, and its chunk was not let in
before; so it can be given back or done, and its chunk is never dropped.

What is handed out again was released.  A released range must therefore be nowhere else, and that is
part of the invariant.

## Main definitions

* `Custody.Sole`, `History.Sole` — the invariant.

## Main results

* `Custody.Sole.find_of_held`, `Custody.Sole.admission_ne_stale` — what follows for a worker.
* `History.Sole.move` — **every move keeps the invariant, whatever the heads.**
-/

namespace BlockIngest

/-! ### Calls to the planner -/

namespace Planner

variable {p p' : Planner} {r s : ChunkRange} {x : Call} {k : ℕ}

/-- A claimed range stays claimed when another one is given back or done. -/
theorem claimed_of_ne (hx : x = .release r ∨ x = .complete r) (hne : r.first ≠ s.first)
    (hs : p.claimed.find? s.first = some s) : (p.answer x).claimed.find? s.first = some s := by
  by_cases hr : p.claimed.find? r.first = some r
  · have herase : (p.answer x).claimed = p.claimed.erase r.first := by
      rcases hx with rfl | rfl
      · rw [answer, release_claimed hr]
      · rw [answer, complete_claimed hr]
    rw [herase, HeightMap.find?_erase, if_neg hne]
    exact hs
  · have hsame : p.answer x = p := by
      rcases hx with rfl | rfl
      · rw [answer, release_unclaimed hr]
      · rw [answer, complete_unclaimed hr]
    rwa [hsame]

/-- What is released afterwards was released before, or was given back. -/
theorem released_of_part (hx : x = .release r ∨ x = .complete r)
    (hs : (p.answer x).released.find? k = some s) :
    p.released.find? k = some s ∨ x = .release r ∧ s = r := by
  rcases hx with rfl | rfl
  · by_cases hr : p.claimed.find? r.first = some r
    · rw [answer, release_claimed hr] at hs
      rcases HeightMap.of_find?_insert hs with ⟨-, rfl⟩ | ⟨-, hold⟩
      · exact Or.inr ⟨rfl, rfl⟩
      · exact Or.inl hold
    · rw [answer, release_unclaimed hr] at hs
      exact Or.inl hs
  · by_cases hr : p.claimed.find? r.first = some r
    · rw [answer, complete_claimed hr] at hs
      exact Or.inl hs
    · rw [answer, complete_unclaimed hr] at hs
      exact Or.inl hs

end Planner

/-- A fresh range that begins below the top was not handed out before. -/
theorem Planner.Record.Handed.notMem_of_fresh? {low : ℕ} {c : Record} {r : ChunkRange}
    (h : c.Handed low) (hfr : c.planner.fresh? = some r) (htop : r.first < Height.top) :
    r ∉ c.issued := by
  intro hr
  have hfirst := (fresh?_eq_some hfr).2.1
  have hnext := (h.below r hr).2
  have hordered := r.ordered
  unfold Height.next Height.add at hnext
  omega

/-! ### The invariant -/

namespace Custody

/-- A range that no worker holds, and whose chunk was not let in. -/
def Free (s : Shared) (c : Custody) (r : ChunkRange) : Prop :=
  (∀ id : ℕ, c.holding[id]? ≠ some (some r)) ∧ ∀ d ∈ c.accepted s, d.range ≠ r

/-- What every step keeps of a range that begins below the top. -/
structure Sole (s : Shared) (c : Custody) : Prop where
  /-- As long as it is held, it is claimed. -/
  claimed : ∀ (id : ℕ) (r : ChunkRange), r.first < Height.top →
    c.holding[id]? = some (some r) → s.planner.claimed.find? r.first = some r
  /-- No two workers hold it. -/
  alone : ∀ (i j : ℕ) (r : ChunkRange), r.first < Height.top →
    c.holding[i]? = some (some r) → c.holding[j]? = some (some r) → i = j
  /-- Its chunk was not let in before. -/
  fetching : ∀ (id : ℕ) (r : ChunkRange), r.first < Height.top →
    c.holding[id]? = some (some r) → ∀ d ∈ c.accepted s, d.range ≠ r
  /-- Once it is released, it is nowhere else. -/
  released : ∀ (k : ℕ) (r : ChunkRange), r.first < Height.top →
    s.planner.released.find? k = some r → c.Free s r

variable {low : ℕ} {s s' : Shared} {c c' : Custody} {r u : ChunkRange} {d : CompletedChunk}
  {id id' : ℕ} {x : Planner.Call}

/-- What is held after a worker has given its range up is held by another one. -/
theorem of_holding_set_none (h : (c.holding.set id none)[id']? = some (some r)) :
    id ≠ id' ∧ c.holding[id']? = some (some r) := by
  have hne : id ≠ id' := by
    rintro rfl
    rw [List.getElem?_set] at h
    simp at h
  exact ⟨hne, (List.getElem?_set_ne hne).symm.trans h⟩

/-- What is held after a worker has taken a range is that one, or held by another one. -/
theorem of_holding_set_some (h : (c.holding.set id (some r))[id']? = some (some u)) :
    id = id' ∧ u = r ∨ id ≠ id' ∧ c.holding[id']? = some (some u) := by
  by_cases hne : id = id'
  · subst hne
    rw [List.getElem?_set] at h
    simp at h
    exact Or.inl ⟨rfl, h.2.symm⟩
  · exact Or.inr ⟨hne, (List.getElem?_set_ne hne).symm.trans h⟩

namespace Sole

variable (h : c.Sole s)
include h

/-- A range of a worker does not lie below what is due. -/
theorem nextCommit_le_of_held (hkept : c.Kept low s) (hid : c.holding[id]? = some (some r)) :
    s.buffer.nextCommit ≤ r.first := by
  by_contra hlt
  have hlt := Nat.lt_of_not_le hlt
  obtain ⟨d, hd, hdr⟩ := hkept.exists_accepted (hkept.held_issued id r hid) hlt
  exact h.fetching id r (hlt.trans_le hkept.due_le_top) hid d hd hdr

/-- A chunk that a worker hands on is not dropped. -/
theorem admission_ne_stale (hkept : c.Kept low s) (hid : c.holding[id]? = some (some d.range)) :
    s.buffer.admission d ≠ .stale := by
  rw [ne_eq, Buffer.admission_eq_stale]
  exact Nat.not_lt.mpr (h.nextCommit_le_of_held hkept hid)

/-! ### What a step changes -/

/-- No range moves, and no chunk is let in. -/
theorem fewer (hplanner : s'.planner = s.planner) (hholding : c'.holding = c.holding)
    (haccepted : ∀ d ∈ c'.accepted s', d ∈ c.accepted s) : c'.Sole s' where
  claimed id r htop hid := hplanner ▸ h.claimed id r htop (hholding ▸ hid)
  alone i j r htop hi hj := h.alone i j r htop (hholding ▸ hi) (hholding ▸ hj)
  fetching id r htop hid d hd := h.fetching id r htop (hholding ▸ hid) d (haccepted d hd)
  released k r htop hr := by
    obtain ⟨hfree, hout⟩ := h.released k r htop (hplanner ▸ hr)
    exact ⟨fun id => hholding ▸ hfree id, fun d hd => hout d (haccepted d hd)⟩

theorem same (hplanner : s'.planner = s.planner) (hbuffer : s.buffer.SameChunks s'.buffer) :
    c.Sole s' :=
  h.fewer hplanner rfl fun _ hd => accepted_of_same hbuffer ▸ hd

/-- The planner is told about a head. -/
theorem observe (n : ℕ) :
    { c with record := c.record.note (.observe n) }.Sole
      { s with planner := s.planner.answer (.observe n) } := by
  obtain ⟨-, -, hclaimed, hreleased⟩ := Planner.sameRanges_observe s.planner n
  constructor
  case claimed => exact fun id r htop hid => hclaimed ▸ h.claimed id r htop hid
  case alone => exact h.alone
  case fetching => exact h.fetching
  case released => exact fun k r htop hr => h.released k r htop (hreleased ▸ hr)

/-- What is handed out was free before, if it begins below the top; and so is what is
still released after that. -/
theorem free_of_next {p : Planner} (hkept : c.Kept low s) (hnext : s.planner.next = (some r, p)) :
    (r.first < Height.top → c.Free s r) ∧
      ∀ k u, u.first < Height.top → p.released.find? k = some u → u ≠ r ∧ c.Free s u := by
  have hplanner := hkept.planner_eq
  rcases Planner.reissue?_or_fresh?_of_next (congrArg Prod.fst hnext) with hre | ⟨hre, hfr⟩
  · obtain ⟨⟨k, hlowest⟩, -⟩ := Planner.reissue?_eq_some hre
    have hr := HeightMap.find?_of_first? hlowest
    have hfirst := (hkept.handed.released_issued k r (hplanner ▸ hr)).1
    rw [Planner.next_of_reissue? hre] at hnext
    cases hnext
    refine ⟨fun htop => h.released k r htop hr, fun j u htop hu => ?_⟩
    obtain ⟨hne, hold⟩ := HeightMap.of_find?_erase hu
    refine ⟨?_, h.released j u htop hold⟩
    rintro rfl
    exact hne (hkept.handed.released_issued j u (hplanner ▸ hold)).1
  · have hnew : r.first < Height.top → r ∉ c.record.issued :=
      hkept.handed.notMem_of_fresh? (hplanner.symm ▸ hfr)
    rw [Planner.next_of_fresh? hre hfr] at hnext
    cases hnext
    refine ⟨fun htop => ⟨fun id hid => ?_, fun d hd hdr => ?_⟩, fun j u htop hu => ?_⟩
    · exact hnew htop (hkept.held_issued id r hid)
    · exact hnew htop (hdr ▸ hkept.accepted_issued d hd)
    · refine ⟨?_, h.released j u htop hu⟩
      rintro rfl
      exact hnew htop (hkept.handed.released_issued j u (hplanner ▸ hu)).2

/-- A worker claims a range, and holds it. -/
theorem claim {p : Planner} (hkept : c.Kept low s) (hid : c.holding[id]? = some none)
    (hnext : s.planner.next = (some r, p)) :
    { c with record := c.record.note .next, holding := c.holding.set id (some r) }.Sole
      { s with planner := p } := by
  have hafter := hkept.claim hid hnext
  obtain ⟨hfree, hreleased⟩ := h.free_of_next hkept hnext
  constructor
  case claimed =>
    intro id' u htop hu
    show p.claimed.find? u.first = some u
    rw [Planner.claimed_of_next hnext, HeightMap.find?_insert]
    rcases of_holding_set_some hu with ⟨-, rfl⟩ | ⟨-, hold⟩
    · exact if_pos rfl
    · -- two ranges that begin at one height are the same
      split
      · next heq =>
        have hr := hafter.held_issued id r (List.getElem?_set_self
          (List.getElem?_eq_some_iff.mp hid).1)
        exact congrArg some (hafter.handed.first_inj r hr u (hafter.held_issued id' u hu) heq)
      · exact h.claimed id' u htop hold
  case alone =>
    intro i j u htop hi hj
    rcases of_holding_set_some hi with ⟨rfl, rfl⟩ | ⟨-, hiold⟩
    · rcases of_holding_set_some hj with ⟨hij, -⟩ | ⟨-, hjold⟩
      · exact hij
      · exact absurd hjold ((hfree htop).1 j)
    · rcases of_holding_set_some hj with ⟨rfl, rfl⟩ | ⟨-, hjold⟩
      · exact absurd hiold ((hfree htop).1 i)
      · exact h.alone i j u htop hiold hjold
  case fetching =>
    intro id' u htop hu
    rcases of_holding_set_some hu with ⟨-, rfl⟩ | ⟨-, hold⟩
    · exact (hfree htop).2
    · exact h.fetching id' u htop hold
  case released =>
    intro k u htop hu
    obtain ⟨hne, hout, hin⟩ := hreleased k u htop hu
    refine ⟨fun id' hid' => ?_, hin⟩
    rcases of_holding_set_some hid' with ⟨-, rfl⟩ | ⟨-, hold⟩
    · exact hne rfl
    · exact hout id' hold

/-- **A worker parts with its range**: it gives it back, or its chunk was let in and the range is
done. -/
theorem part (hkept : c.Kept low s) (hid : c.holding[id]? = some (some r))
    (hx : x = .release r ∨ x = .complete r) (hplanner : s'.planner = s.planner.answer x)
    (haccepted : ∀ d ∈ c.accepted s', d ∈ c.accepted s ∨ x = .complete r ∧ d.range = r) :
    { c with record := c.record.note x, holding := c.holding.set id none }.Sole s' := by
  constructor
  case claimed =>
    intro id' u htop hu
    obtain ⟨hne, hold⟩ := of_holding_set_none hu
    rw [hplanner]
    refine Planner.claimed_of_ne hx (fun heq => hne ?_) (h.claimed id' u htop hold)
    obtain rfl := hkept.handed.first_inj r (hkept.held_issued id r hid) u
      (hkept.held_issued id' u hold) heq
    exact h.alone id id' r htop hid hold
  case alone =>
    intro i j u htop hi hj
    exact h.alone i j u htop (of_holding_set_none hi).2 (of_holding_set_none hj).2
  case fetching =>
    intro id' u htop hu d hd hdu
    obtain ⟨hne, hold⟩ := of_holding_set_none hu
    rcases haccepted d hd with hbefore | ⟨-, hdr⟩
    · exact h.fetching id' u htop hold d hbefore hdu
    · obtain rfl := hdr.symm.trans hdu
      exact hne (h.alone id id' r htop hid hold)
  case released =>
    intro k u htop hu
    rw [hplanner] at hu
    rcases Planner.released_of_part hx hu with hbefore | ⟨hback, rfl⟩
    · obtain ⟨hout, hin⟩ := h.released k u htop hbefore
      refine ⟨fun id' hid' => hout id' (of_holding_set_none hid').2, fun d hd hdu => ?_⟩
      rcases haccepted d hd with hbefore | ⟨-, hdr⟩
      · exact hin d hbefore hdu
      · obtain rfl := hdr.symm.trans hdu
        exact hout id hid
    · -- it was alone with it, and has fetched no chunk of it
      refine ⟨fun id' hid' => ?_, fun d hd hdu => ?_⟩
      · obtain ⟨hne, hold⟩ := of_holding_set_none hid'
        exact hne (h.alone id id' u htop hid hold)
      · rcases haccepted d hd with hbefore | ⟨hdone, -⟩
        · exact h.fetching id u htop hid d hbefore hdu
        · cases hback.symm.trans hdone

end Sole

/-! ### Steps -/

variable {settings : Worker.Settings} {phase next : WorkerPhase} {signal : WorkerSignal}

/-- A chunk that is accepted after one was let in is that one, or was accepted before. -/
theorem of_accepted_insert (hchunks : s'.buffer.chunks = s.buffer.chunks.insert d.range.first d)
    {e : CompletedChunk} (he : e ∈ c.accepted s') : e ∈ c.accepted s ∨ e = d := by
  rcases mem_accepted_iff.mp he with ⟨k, hk⟩ | hout
  · rw [hchunks] at hk
    rcases HeightMap.of_find?_insert hk with ⟨-, rfl⟩ | ⟨-, hold⟩
    · exact Or.inr rfl
    · exact Or.inl (accepted_of_find? hold)
  · exact Or.inl (mem_accepted_iff.mpr (Or.inr hout))

/-- Nothing changes as long as a worker holds on to its range. -/
theorem Sole.quiet (h : c.Sole s) (hid : c.holding[id]? = some phase.held?)
    (hheld : next.held? = phase.held?) (hasks : Worker.asks phase signal next = [])
    (hplanner : s'.planner = s.planner) (hbuffer : s.buffer.SameChunks s'.buffer) :
    (c.work id phase signal next).Sole s' := by
  rw [work_of_quiet hid hheld hasks]
  exact h.same hplanner hbuffer

/-- A worker gives its range back, and no chunk is let in. -/
theorem Sole.giveBack (h : c.Sole s) (hkept : c.Kept low s) (hid : c.holding[id]? = some (some r))
    (hplanner : s'.planner = s.planner.answer (.release r))
    (hbuffer : s.buffer.SameChunks s'.buffer) :
    { c with record := c.record.note (.release r), holding := c.holding.set id none }.Sole s' :=
  h.part hkept hid (Or.inl rfl) hplanner fun _ hd => Or.inl (accepted_of_same hbuffer ▸ hd)

/-- **A step of a worker keeps the invariant.** -/
theorem Sole.work (h : c.Sole s) (hkept : c.Kept low s) (hid : c.holding[id]? = some phase.held?)
    (hfits : phase.Fits) (hstep : Worker.Step settings id s phase signal next s') :
    (c.work id phase signal next).Sole s' := by
  have hnext := Worker.fits_step hstep hfits
  cases hstep with
  | stopped hphase =>
    obtain ⟨rfl, rfl⟩ | ⟨rfl, rfl⟩ := hphase
    · exact h.quiet hid rfl rfl rfl (.refl _)
    · exact h.quiet hid rfl rfl rfl (.refl _)
  | rose | received | fetched | retried | refused | told =>
    exact h.quiet hid rfl rfl rfl (.refl _)
  | listened => exact h.quiet hid rfl rfl rfl (s.buffer.same_listen _)
  | completed hassemble hdone hmake =>
    have hrange := (CompletedChunk.range_of_make hmake).1
    exact h.quiet hid (congrArg some hrange) rfl rfl (.refl _)
  | misfit => exact hnext.elim
  | paused hfails =>
    have hheld := WorkerPhase.held?_of_job? hfails.job?_eq
    exact h.quiet hid hheld.symm (by cases hfails <;> rfl) rfl (.refl _)
  | panicked hcalling =>
    obtain rfl | ⟨b, rfl⟩ := hcalling
    · exact h
    · exact h
  | claimed hrun hgrant => exact h.claim hkept hid hgrant
  | overflowed hrun hgrant =>
    rw [work_of_overflow hkept.planner_eq hgrant]
    exact h.claim hkept hid hgrant
  | rested hrun hgrant =>
    refine h.fewer rfl ?_ fun _ hd => hd
    exact set_holding hid
  | @gaveUp phase signal job e hfails hmissing =>
    rw [WorkerPhase.held?_of_job? hfails.job?_eq] at hid
    have hasks : Worker.asks phase signal .ready = [.release job.range] := by
      rw [hfails.asks_ready, hfails.heads_eq, hmissing]
      rfl
    rw [work_of_free (Or.inl rfl) hasks]
    exact h.giveBack hkept hid (Shared.planner_giveUp _ _) (.of_eq (Shared.buffer_giveUp _ _))
  | @behind phase signal job e k hfails hmissing =>
    rw [WorkerPhase.held?_of_job? hfails.job?_eq] at hid
    have hasks : Worker.asks phase signal .ready
        = [.observe (Height.prev k), .release job.range] := by
      rw [hfails.asks_ready, hfails.heads_eq, hmissing]
      rfl
    rw [work_of_free (Or.inl rfl) hasks]
    obtain ⟨-, -, hclaimed, -⟩ := Planner.sameRanges_observe s.planner (Height.prev k)
    have htold := hkept.tell (x := .observe (Height.prev k)) hclaimed rfl
    exact (h.observe (Height.prev k)).giveBack htold hid (Shared.planner_giveUp _ _)
      (.of_eq (Shared.buffer_giveUp _ _))
  | abandoned hjob =>
    rw [WorkerPhase.held?_of_job? hjob] at hid
    rw [work_of_free (Or.inr rfl) (Worker.asks_stopped_of_job? hjob)]
    exact h.giveBack hkept hid rfl (.refl _)
  | withdrew => exact h.giveBack hkept hid rfl (s.buffer.same_forget _)
  | @admitted d hadmission =>
    refine h.part hkept hid (Or.inr rfl) rfl fun e he => ?_
    refine (of_accepted_insert ?_ he).imp_right fun heq => ⟨rfl, congrArg _ heq⟩
    show (s.buffer.offer d).2.chunks = _
    rw [Buffer.offer_of_stored hadmission]
    rfl
  | dropped hadmission => exact absurd hadmission (h.admission_ne_stale hkept hid)

/-- **A step of the sequencer keeps the invariant.**  A chunk that leaves the buffer was let in
before. -/
theorem Sole.sequence (h : c.Sole s) {q q' : Sequencer} {signal : SequencerSignal}
    (hstep : Sequencer.Step q s signal q' s') :
    { c with
      popped := c.popped ++ q.taken s signal
      discarded := c.discarded ++ q.cleared s signal }.Sole s' := by
  refine h.fewer (Sequencer.planner_step hstep) rfl fun e he => ?_
  have he := mem_accepted_iff.mp he
  simp only [List.mem_append] at he
  rw [mem_accepted_iff]
  rcases Sequencer.buffer_step hstep with ⟨htaken, hcleared, hsame⟩ |
    ⟨d, htaken, hcleared, hfind, hbuffer⟩ | ⟨htaken, hcleared, hbuffer⟩
  · rw [htaken, hcleared, hsame.chunks_eq] at he
    simpa using he
  · rw [htaken, hcleared, hbuffer] at he
    simp only [List.mem_singleton, List.not_mem_nil, or_false] at he
    rcases he with ⟨k, hk⟩ | (hin | rfl) | hin
    · exact Or.inl ⟨k, (HeightMap.of_find?_erase hk).2⟩
    · exact Or.inr (Or.inl hin)
    · exact Or.inl ⟨_, hfind⟩
    · exact Or.inr (Or.inr hin)
  · rw [htaken, hcleared, hbuffer, HeightMap.mem_values] at he
    simp only [List.not_mem_nil, or_false] at he
    rcases he with ⟨k, hk⟩ | hin | hin | hin
    · cases hk
    · exact Or.inr (Or.inl hin)
    · exact Or.inr (Or.inr hin)
    · exact Or.inl hin

end Custody

/-! ### Runs -/

namespace History

variable {low : ℕ} {x x' : History} {m : Move}

/-- The invariant of a run with its history. -/
structure Sole (low : ℕ) (x : History) : Prop where
  kept : Kept low x
  custody : x.custody.Sole x.world.shared

/-- **Every move keeps the invariant, whatever the heads.** -/
theorem Sole.move (h : Sole low x) (hmove : x.move m = some x') : Sole low x' := by
  refine ⟨h.kept.move hmove, ?_⟩
  obtain ⟨w, c⟩ := x
  obtain ⟨w', c'⟩ := x'
  obtain ⟨hworld, hcustody⟩ := move_eq_some hmove
  simp only at hworld hcustody
  subst hcustody
  have hheld := h.kept.held
  have hsole := h.custody
  cases World.move_cases hworld with
  | @worker id phase next signal s hphase hstep =>
    have hlt : id < w.workers.length := (List.getElem?_eq_some_iff.mp hphase).1
    have hfits := hheld.fits phase (List.mem_of_getElem? hphase)
    have hends := World.ends_attended w.settings id next s
    rw [Custody.note_worker hphase (List.getElem?_set_self hlt)]
    exact (hsole.work h.kept.custody (hheld.of_step hphase hstep) hfits hstep).same
      hends.planner_eq (.of_eq hends.buffer_eq)
  | @sequencer signal q s hstep =>
    have hends := World.ends_closed w.settings q s
    exact (hsole.sequence hstep).same hends.planner_eq (.of_eq hends.buffer_eq)
  | @heard answer phase =>
    cases answer with
    | error e => exact hsole
    | ok head => exact hsole.observe head
  | @refreshed signal phase hsignal =>
    cases signal with
    | head answer => exact absurd rfl (hsignal answer)
    | tick | cancel => exact hsole
  | cancelRun | cancelRoot => exact hsole.same rfl (.refl _)

variable {settings : RunSettings} {standing : Standing} {root : Bool} {size capacity : ℕ}
  {hsize : 0 < size} {hcapacity : 0 < capacity} {slots : ℕ} {head : Except Failure ℕ}

theorem sole_resumed :
    Sole standing.floor (resumed settings standing root hsize hcapacity slots head) := by
  refine ⟨kept_resumed, ?_⟩
  -- no worker has a range, and none is released
  have hnone : ∀ (id : ℕ) (r : ChunkRange),
      (List.replicate (max slots 1) none)[id]? ≠ some (some r) := by
    intro id r hid
    cases List.eq_of_mem_replicate (List.mem_of_getElem? hid)
  constructor
  case claimed => exact fun id r _ hid => absurd hid (hnone id r)
  case alone => exact fun i j r _ hi => absurd hi (hnone i r)
  case fetching => exact fun id r _ hid => absurd hid (hnone id r)
  case released =>
    intro k r _ hr
    cases head with
    | error e => cases hr
    | ok n =>
      have hr : (Planner.observe _ n).2.released.find? k = some r := hr
      rw [(Planner.sameRanges_observe _ n).2.2.2] at hr
      cases hr

/-- **Every run keeps the invariant.** -/
theorem sole_after {moves : List Move}
    (hrun : (resumed settings standing root hsize hcapacity slots head).after moves = some x) :
    Sole standing.floor x :=
  foldlM_induction hrun sole_resumed fun _ _ _ _ hx hmove => hx.move hmove

end History
end BlockIngest
