import BlockIngest.Proofs.Buffer.Traffic
import BlockIngest.Proofs.Pipeline.Supply
import BlockIngest.Proofs.Planner.Top

/-!
# The top comes back

The buffer and the sequencer count up as the planner does, and at the top they stay.  Then a chunk
of the top alone is the due one however often it comes: it is let in at once, taken out and
committed, again and again.  No other chunk is let in any more, and no height below the top comes
twice.

The planner, the buffer and the sequencer therefore obey one law, that of counting up: what is
handed out, what is taken out and what is committed are heights counted up one by one.

## Main definitions

* `Traffic.Recounts` — the law of the buffer.
* `Sequencer.Recounts` — the law of the sequencer.

## Main results

* `Traffic.recounts_of_run`, `Sequencer.recounts_of_supplied` — both are obeyed.
* `Height.top_alone_recurs` — **no height but the top comes twice.**
* `Height.top_recurs` — the top does.
-/

namespace BlockIngest

/-! ### The buffer -/

namespace Traffic

/-- Whether what an act brings to the buffer does not pass the top. -/
def Act.Fits : Act → Prop
  | .call _ (.push d) => d.range.last ≤ Height.top
  | _ => True

variable {n capacity : ℕ} {ps : List Passage} {p : Passage} {x x' : Traffic} {a : Act}
  {d : CompletedChunk}

/-- The heights of the chunks that were taken out. -/
def heightsOut (ps : List Passage) : List ℕ :=
  (ps.flatMap Passage.takenOut).flatMap fun d => d.range.heights

theorem heightsOut_snoc (ps : List Passage) (p : Passage) :
    heightsOut (ps ++ [p]) = heightsOut ps ++ p.takenOut.flatMap fun d => d.range.heights := by
  unfold heightsOut
  rw [List.flatMap_append, List.flatMap_singleton, List.flatMap_append]

/-- **The law of a buffer** in which the height `n` was due at first, whatever chunks of heights are
put in. -/
structure Recounts (n : ℕ) (ps : List Passage) (x : Traffic) : Prop where
  /-- The heights that were taken out are counted up one by one, and the due one comes next. -/
  counted : Height.Counted n (heightsOut ps) x.buffer.nextCommit
  /-- No height but the top is taken out twice. -/
  once : ∀ h, h < Height.top → (heightsOut ps).count h ≤ 1
  /-- Once the top was taken out, a chunk that begins there is let in at once, and every other one
  is dropped. -/
  admits : Height.top ∈ heightsOut ps → ∀ d : CompletedChunk, d.range.last ≤ Height.top →
    x.buffer.admission d = if d.range.first = Height.top then .stored else .stale
  /-- And nothing is taken out but the top alone. -/
  takes : Height.top ∈ heightsOut ps → ∀ d b, x.buffer.take = (some d, b) →
    d.range = ⟨Height.top, Height.top, le_rfl⟩

/-- What every act keeps. -/
structure Counts (n : ℕ) (ps : List Passage) (x : Traffic) : Prop where
  keyed : ∀ k d, x.buffer.chunks.find? k = some d → d.range.first = k ∧ d.range.last ≤ Height.top
  pending : ∀ i d phase, x.visits.find? i = some ⟨.push d, phase⟩ → d.range.last ≤ Height.top
  counted : Height.Counted n (heightsOut ps) x.buffer.nextCommit

namespace Counts

theorem start (n : ℕ) (hcapacity : 0 < capacity) : Counts n [] (.start n capacity hcapacity) where
  keyed k d h := by cases h
  pending i d phase h := by cases h
  counted := .nil n

variable (h : Counts n ps x)
include h

/-- Nothing is taken out. -/
theorem same (hkeyed : ∀ k d, x'.buffer.chunks.find? k = some d →
      d.range.first = k ∧ d.range.last ≤ Height.top)
    (hpending : ∀ i d phase, x'.visits.find? i = some ⟨.push d, phase⟩ →
      d.range.last ≤ Height.top)
    (hnext : x'.buffer.nextCommit = x.buffer.nextCommit) (hp : p.takenOut = []) :
    Counts n (ps ++ [p]) x' := by
  refine ⟨hkeyed, hpending, ?_⟩
  rw [heightsOut_snoc, hp, hnext, List.flatMap_nil, List.append_nil]
  exact h.counted

/-- The due chunk is taken out. -/
theorem takeOut (hfind : x.buffer.chunks.find? x.buffer.nextCommit = some d)
    (hchunks : x'.buffer.chunks = x.buffer.chunks.erase x.buffer.nextCommit)
    (hnext : x'.buffer.nextCommit = Height.next d.range.last)
    (hpending : ∀ i d phase, x'.visits.find? i = some ⟨.push d, phase⟩ →
      d.range.last ≤ Height.top) : Counts n (ps ++ [.popped d]) x' := by
  obtain ⟨hfirst, hlast⟩ := h.keyed _ _ hfind
  refine ⟨fun k e he => ?_, hpending, ?_⟩
  · exact h.keyed k e (HeightMap.of_find?_erase (hchunks ▸ he)).2
  · rw [heightsOut_snoc, hnext]
    refine h.counted.append ?_
    rw [← hfirst, Passage.takenOut, List.flatMap_singleton]
    exact ChunkRange.counted hlast

/-- **Every act keeps the invariant.** -/
theorem act (hfits : a.Fits) (hact : x.Acts a p x') : Counts n (ps ++ [p]) x' := by
  have hpending : ∀ i d phase, x'.visits.find? i = some ⟨.push d, phase⟩ →
      d.range.last ≤ Height.top := by
    intro i d phase hvisit
    rcases visit_of_act hact hvisit with ⟨before, hold⟩ | rfl
    · exact h.pending i d before hold
    · exact hfits
  cases hact with
  | called | missed | woke | passed => exact h.same h.keyed hpending rfl rfl
  | @listened i =>
    have hsame := x.buffer.same_listen (.visitor i)
    exact h.same (hsame.chunks_eq ▸ h.keyed) hpending hsame.nextCommit_eq rfl
  | cancelled => exact h.same h.keyed hpending rfl rfl
  | dropped => exact h.same h.keyed hpending rfl rfl
  | admitted hvisit =>
    refine h.same (fun k e he => ?_) hpending rfl rfl
    rcases HeightMap.of_find?_insert he with ⟨hk, rfl⟩ | ⟨-, hold⟩
    · exact ⟨hk, h.pending _ _ _ hvisit⟩
    · exact h.keyed k e hold
  | popped hvisit hfind => exact h.takeOut hfind rfl rfl hpending
  | tried hfind => exact h.takeOut hfind rfl rfl hpending
  | cleared => exact h.same (fun k e he => by cases he) hpending rfl rfl

/-- **The invariant gives the law.** -/
theorem recounts : Recounts n ps x where
  counted := h.counted
  once _ hlt := h.counted.count_le_one hlt
  admits htop d hlast := by
    have hdue := h.counted.due_of_mem htop
    have hordered := d.range.ordered
    split
    · next hfirst =>
      rw [Buffer.admission_eq_stored, hdue, hfirst]
      exact ⟨le_rfl, Or.inr rfl⟩
    · next hfirst =>
      rw [Buffer.admission_eq_stale, hdue]
      omega
  takes htop d b htake := by
    obtain ⟨hfirst, hlast⟩ := h.keyed _ _ (Buffer.take_some htake).1
    rw [h.counted.due_of_mem htop] at hfirst
    exact ChunkRange.eq_top hfirst hlast

end Counts

/-- A buffer in which any height was due at first obeys `Recounts` after any acts in any order, with
any chunks that do not pass the top. -/
theorem recounts_of_run (hcapacity : 0 < capacity)
    (hrun : Run Act.Fits (.start n capacity hcapacity) ps x) : x.Recounts n ps := by
  have hcounts : Counts n ps x := by
    induction hrun with
    | start => exact .start n hcapacity
    | act hrun hfits hact ih => exact ih.act hfits (act_cases hact)
  exact hcounts.recounts

end Traffic

/-! ### The sequencer -/

namespace Sequencer

variable {p : Retry.Policy} {n capacity : ℕ} {q₀ q q' : Sequencer} {s₀ s s' : Shared}
  {signal : SequencerSignal} {fed : List CompletedChunk} {trace : List Effect}

/-- **The law of a sequencer** that begins at the height `n`. -/
structure Recounts (n : ℕ) (fed : List CompletedChunk) (trace : List Effect) (s : Shared) :
    Prop where
  /-- The heights that it was fed are counted up one by one. -/
  fed_counted : Height.Counted n (fed.flatMap fun d => d.range.heights) s.buffer.nextCommit
  /-- So are the heights that it commits. -/
  marks_counted : Height.Counted n (marks trace) (Height.next^[(marks trace).length] n)
  /-- No height but the top is committed twice. -/
  once : ∀ h, h < Height.top → (marks trace).count h ≤ 1

/-- A step takes the due chunk out, or leaves what is due as it is. -/
theorem nextCommit_step (hstep : Step q s signal q' s') :
    q.taken s signal = [] ∧ s'.buffer.nextCommit = s.buffer.nextCommit ∨
      ∃ d, q.taken s signal = [d] ∧ s.buffer.chunks.find? s.buffer.nextCommit = some d ∧
        s'.buffer.nextCommit = Height.next d.range.last := by
  cases hstep with
  | listened hphase =>
    exact Or.inl ⟨taken_eq_nil (by rw [hphase]; simp),
      (s.buffer.same_listen .sequencer).nextCommit_eq⟩
  | took hphase hrun htake | brokeOff hphase hrun htake =>
    obtain ⟨hfind, rfl⟩ := Buffer.take_some htake
    exact Or.inr ⟨_, taken_of_take hphase htake, hfind, rfl⟩
  | missed hphase hrun htake =>
    cases Buffer.take_none htake
    exact Or.inl ⟨taken_of_take hphase htake, rfl⟩
  | woke hphase => exact Or.inl ⟨taken_eq_nil (by rw [hphase]; simp), rfl⟩
  | left => exact Or.inl ⟨taken_cancel q s, rfl⟩
  | wrote hpending | stored hpending | paused hpending | gaveUp hpending =>
    exact Or.inl ⟨taken_of_pending hpending, rfl⟩
  | retried hphase | stopped hphase | ended hphase =>
    exact Or.inl ⟨taken_eq_nil (by rw [hphase]; simp), rfl⟩

/-- What the sequencer is fed is counted up, whoever puts it into the buffer. -/
theorem Supplied.counted (hrun : Supplied q₀ s₀ fed trace q s) (hlevel : Level q₀ s₀.buffer)
    (hfits : ∀ d ∈ fed, d.range.last ≤ Height.top) : Height.Counted s₀.buffer.nextCommit
      (fed.flatMap fun d => d.range.heights) s.buffer.nextCommit := by
  induction hrun with
  | start => exact .nil _
  | pushed hrun hpush ih =>
    rcases Buffer.stepPush_cases hpush with hsame | rfl
    · exact hsame.nextCommit_eq ▸ ih hfits
    · exact ih hfits
  | others hrun hothers ih => exact hothers.nextCommit_eq ▸ ih hfits
  | step hrun hstep ih =>
    have hbefore := ih fun d hd => hfits d (List.mem_append_left _ hd)
    rcases nextCommit_step (step_cases hstep) with ⟨htaken, hnext⟩ | ⟨d, htaken, hfind, hnext⟩
    · rw [htaken, hnext, List.append_nil]
      exact hbefore
    · have hfirst := (hrun.level hlevel).keyed _ _ hfind
      have hlast := hfits d (by rw [htaken]; simp)
      rw [htaken, hnext, List.flatMap_append, List.flatMap_singleton]
      refine hbefore.append ?_
      rw [← hfirst]
      exact ChunkRange.counted hlast

/-- If the buffer and the sequencer begin at one height and the chunks that it is fed do not pass
the top, then the sequencer obeys `Recounts`. -/
theorem recounts_of_supplied (hcapacity : 0 < capacity)
    (hbuffer : s₀.buffer = .start n capacity hcapacity)
    (hrun : Supplied (.start p n) s₀ fed trace q s)
    (hfits : ∀ d ∈ fed, d.range.last ≤ Height.top) : Recounts n fed trace s := by
  have hfed := hrun.counted (hbuffer ▸ .start p n hcapacity) hfits
  rw [hbuffer] at hfed
  have hmarks := hfed.of_prefix hrun.tracked.marks_prefix
  exact ⟨hfed, hmarks, fun _ hlt => hmarks.count_le_one hlt⟩

/-- The chunk of the top is put into the buffer twice, and is committed twice. -/
theorem exists_supplied_top :
    let d : CompletedChunk := .bare ⟨Height.top, Height.top, le_rfl⟩
    ∃ s₀ trace q s, s₀.buffer = .start Height.top 1 Nat.one_pos ∧
      Supplied (.start ⟨0, 0, none⟩ Height.top) s₀ [d, d] trace q s ∧
      marks trace = [Height.top, Height.top] := by
  intro d
  let q₀ : Sequencer := .start ⟨0, 0, none⟩ Height.top
  let s₀ : Shared :=
    { store := .empty, publisher := .start 1 Nat.one_pos, progress := .ofHeight? none
      telemetry := {}, planner := .start 0 1 Nat.one_pos, shutdown := {}
      buffer := .start Height.top 1 Nat.one_pos }
  have h₀ : Supplied q₀ s₀ [] [] q₀ s₀ := .start
  have h₁ := h₀.pushed (rfl : Buffer.stepPush _ (.visitor 0) d .fresh = some _)
  have h₂ := h₁.pushed (rfl : Buffer.stepPush _ (.visitor 0) d .looking = some _)
  have h₃ := h₂.step (rfl : step _ _ .turn = some _)
  have h₄ := h₃.step (rfl : step _ _ .turn = some _)
  have h₅ := h₄.step (rfl : step _ _ (.written (.ok ())) = some _)
  -- the same once more
  have h₆ := h₅.pushed (rfl : Buffer.stepPush _ (.visitor 0) d .fresh = some _)
  have h₇ := h₆.pushed (rfl : Buffer.stepPush _ (.visitor 0) d .looking = some _)
  have h₈ := h₇.step (rfl : step _ _ .turn = some _)
  have h₉ := h₈.step (rfl : step _ _ .turn = some _)
  exact ⟨s₀, _, _, _, rfl, h₉.step (rfl : step _ _ (.written (.ok ())) = some _), rfl⟩

end Sequencer

/-! ### All three -/

namespace Height

/-- **No height but the top comes twice.**  A planner that starts at any height, with ranges of any
size, a buffer with any room in which any height is due at first, and a sequencer that begins there
obey the law of counting up, whatever is called, put in or written, and in whatever order. -/
theorem top_alone_recurs (low n : ℕ) {size capacity : ℕ} (hsize : 0 < size)
    (hcapacity : 0 < capacity) :
    (∀ calls, (Planner.Record.after (.start low size hsize) calls).Recounts low) ∧
      (∀ ps x, Traffic.Run Traffic.Act.Fits (.start n capacity hcapacity) ps x →
        x.Recounts n ps) ∧
      ∀ p s₀ fed trace q s, s₀.buffer = .start n capacity hcapacity →
        Sequencer.Supplied (.start p n) s₀ fed trace q s →
        (∀ d ∈ fed, d.range.last ≤ top) → Sequencer.Recounts n fed trace s :=
  ⟨fun calls => Planner.Record.recounts_after low hsize calls,
    fun _ _ hrun => Traffic.recounts_of_run hcapacity hrun,
    fun _ _ _ _ _ _ hbuffer hrun hfits =>
      Sequencer.recounts_of_supplied hcapacity hbuffer hrun hfits⟩

/-- The chunk of the top is put in and taken out. -/
def topActs : List Traffic.Act :=
  [.call 0 (.push (.bare ⟨top, top, le_rfl⟩)), .turn 0, .turn 0, .tryPop]

theorem fits_topActs : ∀ a ∈ topActs ++ topActs, a.Fits := by
  simp [topActs, Traffic.Act.Fits, CompletedChunk.bare]

theorem after_topActs : ∃ ps x,
    (Traffic.start top 1 Nat.one_pos).after (topActs ++ topActs) = some (ps, x) ∧
      Traffic.heightsOut ps = [top, top] := by
  have hrun : ((Traffic.start top 1 Nat.one_pos).after (topActs ++ topActs)).map
      (fun r => Traffic.heightsOut r.1) = some [top, top] := by
    decide +kernel
  obtain ⟨⟨ps, x⟩, hafter, hout⟩ := Option.map_eq_some_iff.mp hrun
  exact ⟨ps, x, hafter, hout⟩

/-- A planner that starts right below the top, a buffer in which the top is due and a sequencer that
begins there.  All of them obey the law, and the top comes twice everywhere. -/
theorem top_alone_recurs_twice :
    let t : ChunkRange := ⟨top, top, le_rfl⟩
    let c := Planner.Record.after (.start (top - 1) 4 (by decide))
      [.observe top, .next, .next]
    0 < 4 ∧ 0 < 1 ∧ c.Recounts (top - 1) ∧ c.issued = [t, t] ∧
      (∃ ps x, Traffic.Run Traffic.Act.Fits (.start top 1 Nat.one_pos) ps x ∧
        x.Recounts top ps ∧ Traffic.heightsOut ps = [top, top]) ∧
      ∃ fed trace s, Sequencer.Recounts top fed trace s ∧
        marks trace = [top, top] := by
  intro t c
  have hsize : 0 < 4 := by decide
  obtain ⟨hplanner, hbuffer, hsequencer⟩ := top_alone_recurs (top - 1) top hsize Nat.one_pos
  refine ⟨hsize, Nat.one_pos, hplanner _, by decide +kernel, ?_, ?_⟩
  · obtain ⟨ps, x, hafter, hout⟩ := after_topActs
    have hrun : Traffic.Run Traffic.Act.Fits (.start top 1 Nat.one_pos) ([] ++ ps) x :=
      Traffic.Run.after .start fits_topActs hafter
    exact ⟨ps, x, hrun, hbuffer ps x hrun, hout⟩
  · obtain ⟨s₀, trace, q, s, hstart, hrun, hmarks⟩ := Sequencer.exists_supplied_top
    refine ⟨_, trace, s, hsequencer _ _ _ _ _ _ hstart hrun ?_, hmarks⟩
    simp [CompletedChunk.bare]

/-- **The top comes back.**  It is handed out again although it was not given back, also if the
planner starts there; the buffer lets it in and gives it out once more; and it is committed
twice. -/
theorem top_recurs :
    let t : ChunkRange := ⟨top, top, le_rfl⟩
    let below := Planner.Record.after (.start (top - 1) 4 (by decide)) [.observe top, .next]
    let there := Planner.Record.after (.start top 4 (by decide)) [.observe top, .next]
    (below.issued = [t] ∧ below.returned = [] ∧ below.planner.next.1 = some t) ∧
      there.issued = [t] ∧
      (∃ ps x, Traffic.Run Traffic.Act.Fits (.start top 1 Nat.one_pos) ps x ∧
        Traffic.heightsOut ps = [top, top]) ∧
      ∃ s₀ fed trace q s, s₀.buffer = .start top 1 Nat.one_pos ∧
        Sequencer.Supplied (.start ⟨0, 0, none⟩ top) s₀ fed trace q s ∧
        marks trace = [top, top] := by
  intro t below there
  refine ⟨by decide +kernel, by decide +kernel, ?_, ?_⟩
  · obtain ⟨ps, x, hafter, hout⟩ := after_topActs
    exact ⟨[] ++ ps, x, Traffic.Run.after .start fits_topActs hafter, hout⟩
  · obtain ⟨s₀, trace, q, s, hstart, hrun, hmarks⟩ := Sequencer.exists_supplied_top
    exact ⟨s₀, _, trace, q, s, hstart, hrun, hmarks⟩

end Height
end BlockIngest
