import BlockIngest.Proofs.Buffer.Traffic
import Mathlib.Data.List.Chain

/-!
# What leaves the buffer, and what stays

Whatever is put in, in whatever order, overlapping or more than once, the chunks that are
taken out follow one another without a gap, and no height comes twice.  A chunk that was
let in stays until it is taken out, thrown away, or gives its place to another one that
begins at the same height.  There is never more than one chunk beyond the capacity, and
that many only while the due chunk is among them.

Each act changes the chunks in one of three ways: one is let in, the due one is taken
out, or all of them are thrown away.  The invariant has one lemma for each.

## Main definitions

* `Leads` — chunks that follow one another from one height to another.
* `Traffic.Stocked` — the invariant.
* `Traffic.Ordered` — the law.

## Main results

* `Traffic.Stocked.act` — **every act keeps the invariant.**
* `Traffic.ordered_of_run` — **what leaves the buffer, and what stays.**
-/

namespace BlockIngest

/-! ### Chunks that follow one another -/

/-- Chunks that follow one another from the height `n` on, the last of them ending right
below `next`. -/
structure Leads (n next : ℕ) (ds : List CompletedChunk) : Prop where
  /-- The first one begins at `n`. -/
  first_eq : ∀ d, ds.head? = some d → d.range.first = n
  /-- Each later one begins right after the end of the one before. -/
  chained : ds.IsChain fun d e => e.range.first = d.range.last + 1
  /-- Right after the last one comes `next`. -/
  next_eq : next = (ds.getLast?.map fun d => d.range.last + 1).getD n
  /-- Their heights are those from `n` to below `next`, each of them once. -/
  heights_eq : ds.flatMap (fun d => d.range.heights) = List.range' n (next - n)
  /-- They do not lead back. -/
  le : n ≤ next

namespace Leads

variable {n next : ℕ} {ds : List CompletedChunk} {d : CompletedChunk}

theorem nil (n : ℕ) : Leads n n [] := by
  constructor <;> simp

/-- One more chunk leads on. -/
theorem snoc (h : Leads n next ds) (hfirst : d.range.first = next) :
    Leads n (d.range.last + 1) (ds ++ [d]) := by
  have hordered := d.range.ordered
  have hle := h.le
  constructor
  · intro e he
    cases ds with
    | nil =>
      cases he
      exact hfirst.trans h.next_eq
    | cons c cs =>
      cases he
      exact h.first_eq _ rfl
  · refine List.isChain_append.mpr ⟨h.chained, List.isChain_singleton d, ?_⟩
    intro c hc e he
    cases he
    have hnext := h.next_eq
    rw [Option.mem_def.mp hc] at hnext
    exact hfirst.trans hnext
  · simp
  · have hsize : d.range.heights = List.range' (n + (next - n)) (d.range.last + 1 - next) := by
      unfold ChunkRange.heights ChunkRange.size
      congr 1 <;> omega
    rw [List.flatMap_append, List.flatMap_singleton, h.heights_eq, hsize, List.range'_append_1]
    congr 1
    omega
  · omega

end Leads

/-! ### Chunks that are accounted for -/

/-- Whether all chunks that were let in are accounted for: they are in the buffer, were
taken out or thrown away, or have lost their place to another one; and only one of these, as
often as they were let in. -/
def Accounted (ps : List Passage) (chunks : HeightMap CompletedChunk) : Prop :=
  (ps.flatMap Passage.entered).Perm
    (chunks.values ++ ps.flatMap Passage.takenOut ++ ps.flatMap Passage.thrownAway
      ++ ps.flatMap Passage.displaced)

/-- If no chunk gets lost in an act, then all are accounted for after it. -/
theorem Accounted.snoc {ps : List Passage} {p : Passage} {chunks chunks' : HeightMap CompletedChunk}
    (h : Accounted ps chunks) (hact : (p.entered ++ chunks.values).Perm
      (chunks'.values ++ (p.takenOut ++ p.thrownAway ++ p.displaced))) :
    Accounted (ps ++ [p]) chunks' := by
  classical
  unfold Accounted at h ⊢
  rw [List.perm_iff_count] at h hact ⊢
  intro d
  have hd := h d
  have hd' := hact d
  simp only [List.flatMap_append, List.flatMap_singleton, List.count_append] at hd hd' ⊢
  omega

namespace Traffic

/-! ### The law -/

/-- Whether what an act brings to the buffer ends below the top. -/
def Act.Bounded : Act → Prop
  | .call _ (.push d) => d.range.last < Height.top
  | _ => True

/-- **The law of a buffer** with room for `capacity` chunks in which the height `n` was due
at first, after acts in which this became of chunks. -/
structure Ordered (n capacity : ℕ) (ps : List Passage) (x : Traffic) : Prop where
  /-- The chunks that were taken out follow one another, from the height that was due at
  first to the one that is due now. -/
  leads : Leads n x.buffer.nextCommit (ps.flatMap Passage.takenOut)
  /-- There is at most one chunk beyond the capacity. -/
  size_le : x.buffer.size ≤ capacity + 1
  /-- If there is one, then the due chunk is in the buffer. -/
  overfull : x.buffer.size = capacity + 1 → ∃ d,
    x.buffer.chunks.find? x.buffer.nextCommit = some d ∧ d.range.first = x.buffer.nextCommit
  /-- A chunk that was let in is in the buffer, was taken out or thrown away, or has lost its
  place to another one. -/
  accounted : Accounted ps x.buffer.chunks
  /-- The other one begins at the same height. -/
  displaced : ∀ d e, .admitted d (some e) ∈ ps → e.range.first = d.range.first
  /-- A chunk in the buffer stays there in whatever happens next, unless it is taken out,
  thrown away with all others, or loses its place to one that begins at the same height. -/
  leaves : ∀ a p x', x.act a = some (p, x') → ∀ d ∈ x.buffer.chunks.values,
    d ∈ x'.buffer.chunks.values ∨ p = .popped d ∨
      a = .clear ∧ p = .cleared x.buffer.chunks.values ∨
      ∃ e, p = .admitted e (some d) ∧ d.range.first = e.range.first
  /-- A call that comes to its end has put its chunk in, unless that lies below what is due. -/
  finishes : ∀ i d phase p x', x.visits.find? i = some ⟨.push d, phase⟩ →
    x.act (.turn i) = some (p, x') → x'.visits.find? i = none →
      x'.buffer.chunks.find? d.range.first = some d ∨ d.range.first < x.buffer.nextCommit
  /-- A call that is given up leaves the chunks as they are, and what is due. -/
  cancelled : ∀ i v, x.visits.find? i = some v →
    ∃ x', x.act (.cancel i) = some (.none, x') ∧ x.buffer.SameChunks x'.buffer

/-! ### The invariant -/

/-- What every act keeps. -/
structure Stocked (n capacity : ℕ) (ps : List Passage) (x : Traffic) : Prop where
  capacity_eq : x.buffer.capacity = capacity
  keyed : ∀ k d, x.buffer.chunks.find? k = some d → d.range.first = k ∧ d.range.last < Height.top
  pending : ∀ i d phase, x.visits.find? i = some ⟨.push d, phase⟩ → d.range.last < Height.top
  leads : Leads n x.buffer.nextCommit (ps.flatMap Passage.takenOut)
  room : x.buffer.size ≤ capacity + (x.buffer.chunks.find? x.buffer.nextCommit).toList.length
  accounted : Accounted ps x.buffer.chunks
  displaced : ∀ d e, .admitted d (some e) ∈ ps → e.range.first = d.range.first

variable {n capacity : ℕ} {ps : List Passage} {p : Passage} {x x' : Traffic} {a : Act}
  {d : CompletedChunk}

theorem stocked_start (n : ℕ) (hcapacity : 0 < capacity) :
    Stocked n capacity [] (start n capacity hcapacity) := by
  constructor
  case leads => exact .nil n
  case room => exact Nat.zero_le _
  case accounted => exact .refl _
  case capacity_eq => rfl
  case keyed | pending | displaced => simp [start, Buffer.start]

namespace Stocked

variable (h : Stocked n capacity ps x)
include h

/-- Nothing becomes of chunks, or one is dropped. -/
theorem same (hbuffer : x.buffer.SameChunks x'.buffer)
    (hpending : ∀ i d phase, x'.visits.find? i = some ⟨.push d, phase⟩ → d.range.last < Height.top)
    (hp : p = .none ∨ ∃ d, p = .dropped d) : Stocked n capacity (ps ++ [p]) x' := by
  obtain ⟨hchunks, hnext, hcapacity⟩ := hbuffer
  have hsize : x'.buffer.size = x.buffer.size := congrArg HeightMap.size hchunks
  have hquiet : p.entered = [] ∧ p.takenOut = [] ∧ p.thrownAway = [] ∧ p.displaced = [] := by
    obtain rfl | ⟨d, rfl⟩ := hp <;> exact ⟨rfl, rfl, rfl, rfl⟩
  obtain ⟨hentered, htaken, hthrown, hdisplaced⟩ := hquiet
  constructor
  case capacity_eq => exact hcapacity.trans h.capacity_eq
  case keyed => exact hchunks ▸ h.keyed
  case pending => exact hpending
  case leads => simpa [htaken, hnext] using h.leads
  case room => simpa [hsize, hnext, hchunks] using h.room
  case accounted =>
    refine h.accounted.snoc ?_
    simp [hentered, htaken, hthrown, hdisplaced, hchunks]
  case displaced =>
    intro e f hmem
    rcases List.mem_append.mp hmem with hold | hnew
    · exact h.displaced e f hold
    · obtain rfl | ⟨d, rfl⟩ := hp <;> simp at hnew

/-- A chunk is let in, which ends below the top. -/
theorem enter (hadmission : x.buffer.admission d = .stored) (hlast : d.range.last < Height.top)
    (hchunks : x'.buffer.chunks = x.buffer.chunks.insert d.range.first d)
    (hnext : x'.buffer.nextCommit = x.buffer.nextCommit)
    (hcapacity : x'.buffer.capacity = x.buffer.capacity)
    (hpending : ∀ i d phase, x'.visits.find? i = some ⟨.push d, phase⟩ →
      d.range.last < Height.top) :
    Stocked n capacity
      (ps ++ [.admitted d (x.buffer.chunks.find? d.range.first)]) x' := by
  -- apart from the place of the chunk, the buffer holds the same before and after
  have hbefore := x.buffer.chunks.values_perm d.range.first
  have hafter := x.buffer.chunks.values_insert_erase d.range.first d
  rw [← hchunks] at hafter
  constructor
  case capacity_eq => exact hcapacity.trans h.capacity_eq
  case keyed =>
    intro k e he
    rcases HeightMap.of_find?_insert (hchunks ▸ he) with ⟨hk, rfl⟩ | ⟨-, hold⟩
    · exact ⟨hk, hlast⟩
    · exact h.keyed k e hold
  case pending => exact hpending
  case leads => simpa [Passage.takenOut, hnext] using h.leads
  case room =>
    have hsize := hafter.length_eq
    have hsize' := hbefore.length_eq
    have hroom := h.room
    have hcap := h.capacity_eq
    obtain ⟨-, hin⟩ := Buffer.admission_eq_stored.mp hadmission
    simp only [HeightMap.length_values, List.length_append, List.length_cons] at hsize hsize'
    unfold Buffer.size at hroom ⊢
    rw [hnext, hsize]
    by_cases hdue : d.range.first = x.buffer.nextCommit
    · rw [hchunks, HeightMap.find?_insert, if_pos hdue]
      rw [← hdue] at hroom
      simp only [Option.toList_some, List.length_singleton]
      omega
    · have hfree := hin.resolve_right hdue
      omega
  case accounted =>
    refine h.accounted.snoc ?_
    calc d :: x.buffer.chunks.values
      _ |>.Perm (d :: ((x.buffer.chunks.find? d.range.first).toList
            ++ (x.buffer.chunks.erase d.range.first).values)) := hbefore.cons d
      _ |>.Perm (d :: ((x.buffer.chunks.erase d.range.first).values
            ++ (x.buffer.chunks.find? d.range.first).toList)) := List.perm_append_comm.cons d
      _ |>.Perm (x'.buffer.chunks.values ++ (x.buffer.chunks.find? d.range.first).toList) :=
          hafter.symm.append_right _
  case displaced =>
    intro e f hmem
    rcases List.mem_append.mp hmem with hold | hnew
    · exact h.displaced e f hold
    · rw [List.mem_singleton, Passage.admitted.injEq] at hnew
      obtain ⟨rfl, hfind⟩ := hnew
      exact (h.keyed _ _ hfind.symm).1

/-- The due chunk is taken out. -/
theorem takeOut (hfind : x.buffer.chunks.find? x.buffer.nextCommit = some d)
    (hchunks : x'.buffer.chunks = x.buffer.chunks.erase x.buffer.nextCommit)
    (hnext : x'.buffer.nextCommit = Height.next d.range.last)
    (hcapacity : x'.buffer.capacity = x.buffer.capacity)
    (hpending : ∀ i d phase, x'.visits.find? i = some ⟨.push d, phase⟩ →
      d.range.last < Height.top) :
    Stocked n capacity (ps ++ [.popped d]) x' := by
  obtain ⟨hfirst, hlast⟩ := h.keyed _ _ hfind
  have hvalues := HeightMap.values_erase_perm hfind
  rw [← hchunks] at hvalues
  rw [Height.next_of_lt hlast] at hnext
  constructor
  case capacity_eq => exact hcapacity.trans h.capacity_eq
  case keyed =>
    intro k e he
    exact h.keyed k e (HeightMap.of_find?_erase (hchunks ▸ he)).2
  case pending => exact hpending
  case leads =>
    rw [hnext, List.flatMap_append, List.flatMap_singleton]
    exact h.leads.snoc hfirst
  case room =>
    have hsize := hvalues.length_eq
    have hroom := h.room
    simp only [HeightMap.length_values, List.length_cons] at hsize
    unfold Buffer.size at hroom ⊢
    rw [hfind, Option.toList_some, List.length_singleton] at hroom
    omega
  case accounted => exact h.accounted.snoc (hvalues.trans (List.perm_append_singleton d _).symm)
  case displaced =>
    intro e f hmem
    rcases List.mem_append.mp hmem with hold | hnew
    · exact h.displaced e f hold
    · simp at hnew

/-- All chunks are thrown away. -/
theorem clear : Stocked n capacity (ps ++ [.cleared x.buffer.chunks.values])
    { x with buffer := { x.buffer with chunks := .empty }.announce } := by
  refine { h with keyed := ?_, leads := ?_, room := Nat.zero_le _, accounted := ?_,
                  displaced := ?_ }
  · intro k e he
    cases he
  · simpa [Passage.takenOut, Buffer.announce] using h.leads
  · refine h.accounted.snoc ?_
    simp [Passage.entered, Passage.takenOut, Passage.thrownAway, Passage.displaced,
      Buffer.announce, HeightMap.values, HeightMap.empty]
  · intro e f hmem
    rcases List.mem_append.mp hmem with hold | hnew
    · exact h.displaced e f hold
    · simp at hnew

/-- **Every act keeps the invariant.** -/
theorem act (hbounded : a.Bounded) (hact : x.Acts a p x') :
    Stocked n capacity (ps ++ [p]) x' := by
  have hpending : ∀ i d phase, x'.visits.find? i = some ⟨.push d, phase⟩ →
      d.range.last < Height.top := by
    intro i d phase hvisit
    rcases visit_of_act hact hvisit with ⟨before, hold⟩ | rfl
    · exact h.pending i d before hold
    · exact hbounded
  cases hact with
  | called | missed | woke | passed => exact h.same (.refl _) hpending (Or.inl rfl)
  | listened => exact h.same (x.buffer.same_listen _) hpending (Or.inl rfl)
  | cancelled => exact h.same (x.buffer.same_forget _) hpending (Or.inl rfl)
  | dropped => exact h.same (x.buffer.same_forget _) hpending (Or.inr ⟨_, rfl⟩)
  | admitted hvisit hadmission =>
    exact h.enter hadmission (h.pending _ _ _ hvisit) rfl rfl rfl hpending
  | popped hvisit hfind => exact h.takeOut hfind rfl rfl rfl hpending
  | tried hfind => exact h.takeOut hfind rfl rfl rfl hpending
  | cleared => exact h.clear

/-! ### From the invariant to the law -/

theorem leaves (hact : x.Acts a p x') (hd : d ∈ x.buffer.chunks.values) :
    d ∈ x'.buffer.chunks.values ∨ p = .popped d ∨
      a = .clear ∧ p = .cleared x.buffer.chunks.values ∨
      ∃ e, p = .admitted e (some d) ∧ d.range.first = e.range.first := by
  cases hact with
  | called | missed | woke | dropped | cancelled | passed => exact Or.inl hd
  | listened => exact Or.inl ((x.buffer.same_listen _).chunks_eq ▸ hd)
  | @admitted i e hvisit hadmission =>
    obtain ⟨k, hk⟩ := HeightMap.mem_values.mp hd
    have hfirst := (h.keyed k d hk).1
    by_cases hplace : e.range.first = k
    · subst hplace
      exact Or.inr (Or.inr (Or.inr ⟨e, congrArg _ hk, hfirst⟩))
    · refine Or.inl (HeightMap.mem_values.mpr ⟨k, ?_⟩)
      exact (HeightMap.find?_insert _ _ _ _).trans (by rw [if_neg hplace, hk])
  | popped hvisit hfind | tried hfind =>
    rcases List.mem_cons.mp ((HeightMap.values_erase_perm hfind).subset hd) with rfl | hd
    · exact Or.inr (Or.inl rfl)
    · exact Or.inl hd
  | cleared => exact Or.inr (Or.inr (Or.inl ⟨rfl, rfl⟩))

/-- **The invariant gives the law.** -/
theorem ordered : Ordered n capacity ps x where
  leads := h.leads
  size_le := by
    have hroom := h.room
    have hone : (x.buffer.chunks.find? x.buffer.nextCommit).toList.length ≤ 1 :=
      Option.length_toList_le
    omega
  overfull := by
    intro hsize
    have hroom := h.room
    rcases hfind : x.buffer.chunks.find? x.buffer.nextCommit with _ | d
    · rw [hfind, Option.toList_none, List.length_nil] at hroom
      omega
    · exact ⟨d, rfl, (h.keyed _ _ hfind).1⟩
  accounted := h.accounted
  displaced := h.displaced
  leaves a p x' hact d hd := h.leaves (act_cases hact) hd
  finishes := by
    intro i d phase p x' hvisit hact hended
    cases act_cases hact with
    | listened | missed | woke =>
      rw [HeightMap.find?_insert_self] at hended
      cases hended
    | admitted hvisit' =>
      cases hvisit.symm.trans hvisit'
      exact Or.inl (HeightMap.find?_insert_self _ _ _)
    | dropped hvisit' hadmission =>
      cases hvisit.symm.trans hvisit'
      exact Or.inr (Buffer.admission_eq_stale.mp hadmission)
    | popped hvisit' => cases hvisit.symm.trans hvisit'
  cancelled := by
    intro i v hvisit
    refine ⟨⟨x.buffer.forget (.visitor i), x.visits.erase i⟩, ?_, x.buffer.same_forget _⟩
    simp only [Traffic.act, hvisit]

end Stocked

theorem Run.stocked (hcapacity : 0 < capacity)
    (hrun : Run Act.Bounded (.start n capacity hcapacity) ps x) : Stocked n capacity ps x := by
  induction hrun with
  | start => exact stocked_start n hcapacity
  | act hrun hbounded hact ih => exact ih.act hbounded (act_cases hact)

/-- **What leaves the buffer, and what stays.**  A buffer with any room, in which any
height was due at first, obeys `Ordered` after any acts in any order, with any chunks that
end below the top. -/
theorem ordered_of_run (hcapacity : 0 < capacity)
    (hrun : Run Act.Bounded (.start n capacity hcapacity) ps x) : x.Ordered n capacity ps :=
  (hrun.stocked hcapacity).ordered

/-- Room for one chunk.  While the second chunk waits for room, the due one is let in beyond
the capacity and taken out; then another one takes the place of the one in the buffer, and
is taken out by someone who does not wait.  In the end there is again one chunk too many. -/
theorem ordered_of_run_displaced :
    let one (h : ℕ) : CompletedChunk := .bare ⟨h, h, le_rfl⟩
    let two (h : ℕ) : CompletedChunk := .bare ⟨h, h + 1, Nat.le_succ h⟩
    let put (i : ℕ) (d : CompletedChunk) : List Act := [.call i (.push d), .turn i, .turn i]
    let acts : List Act := put 0 (two 3) ++ put 1 (two 5) ++ put 2 (two 1) ++
      [.call 3 .pop, .turn 3, .turn 3] ++ put 4 (one 3) ++ [.tryPop] ++
      put 5 (one 7) ++ put 6 (two 4)
    0 < 1 ∧ ∃ ps x, Run Act.Bounded (.start 1 1 Nat.one_pos) ps x ∧
      (start 1 1 Nat.one_pos).after acts = some (ps, x) ∧ x.Ordered 1 1 ps ∧
      (ps.flatMap Passage.takenOut).map CompletedChunk.range
        = [⟨1, 2, by decide⟩, ⟨3, 3, le_rfl⟩] ∧
      (ps.flatMap Passage.displaced).map CompletedChunk.range = [⟨3, 4, by decide⟩] ∧
      x.buffer.chunks.keys = [4, 7] ∧ x.buffer.nextCommit = 4 ∧ x.visits.keys = [1] := by
  intro one two put acts
  have hacts : ∀ a ∈ acts, a.Bounded := by
    simp [acts, put, Act.Bounded, one, two, CompletedChunk.bare, Height.top]
  have hrun : ((start 1 1 Nat.one_pos).after acts).map (fun r =>
      ((r.1.flatMap Passage.takenOut).map CompletedChunk.range,
        (r.1.flatMap Passage.displaced).map CompletedChunk.range, r.2.buffer.chunks.keys,
        r.2.buffer.nextCommit, r.2.visits.keys))
      = some ([⟨1, 2, by decide⟩, ⟨3, 3, le_rfl⟩], [⟨3, 4, by decide⟩], [4, 7], 4, [1]) := by
    decide +kernel
  obtain ⟨⟨ps, x⟩, hafter, hstate⟩ := Option.map_eq_some_iff.mp hrun
  have hrun : Run Act.Bounded (.start 1 1 Nat.one_pos) ([] ++ ps) x :=
    Run.after .start hacts hafter
  simp only [Prod.mk.injEq] at hstate
  exact ⟨Nat.one_pos, ps, x, hrun, hafter, ordered_of_run Nat.one_pos hrun, hstate⟩

end Traffic
end BlockIngest
