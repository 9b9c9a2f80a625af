import BlockIngest.Proofs.Planner.Places
import Mathlib.Data.List.Induction
import Mathlib.Data.List.Iterate

/-!
# Counting at the top

The planner counts up from one height to the next, and at the top the next height is the top
itself.  So a planner whose cursor has come to the top cannot tell whether the top was handed out
already: as long as it knows of a head at the top and that head has not moved back, it hands the
top out once more whenever it is asked.  Below the top nothing of the kind happens.

What is said here holds whatever the heads, and of the top it says exactly what becomes of it.

## Main definitions

* `Height.Counted` — heights counted up one by one, the top over and over again.
* `Planner.Record.Recounts` — the law.

## Main results

* `Height.Counted.count_le_one` — no height below the top is counted twice.
* `Planner.Record.Counts.note` — one call keeps the invariant.
* `Planner.Record.recounts_after` — **no height but the top is handed out twice.**
-/

namespace BlockIngest

/-! ### Counting up -/

namespace Height

variable {n k g due due' : ℕ} {hs hs' : List ℕ}

/-- Heights counted up one by one from `n`, and the one that is due after them.  The top is above
itself. -/
structure Counted (n : ℕ) (hs : List ℕ) (due : ℕ) : Prop where
  heights_eq : hs = List.iterate next n hs.length
  due_eq : due = next^[hs.length] n

theorem iterate_next (hn : n ≤ top) (k : ℕ) : next^[k] n = min (n + k) top := by
  induction k with
  | zero => exact (Nat.min_eq_left hn).symm
  | succ k ih =>
    rw [Function.iterate_succ_apply', ih]
    unfold next add
    omega

/-- A height below the top is counted once. -/
theorem count_iterate_le_one (hg : g < top) (n k : ℕ) : (List.iterate next n k).count g ≤ 1 := by
  induction k generalizing n with
  | zero => exact Nat.zero_le _
  | succ k ih =>
    rw [List.iterate, List.count_cons]
    split
    · next heq =>
      -- what comes after it is greater
      have hn : n = g := beq_iff_eq.mp heq
      have hnext : next n = n + 1 := next_of_lt (hn ▸ hg)
      have hzero : (List.iterate next (next n) k).count g = 0 := by
        rw [List.count_eq_zero, List.mem_iterate]
        rintro ⟨m, -, hm⟩
        rw [hnext, iterate_next (by omega)] at hm
        omega
      omega
    · exact ih (next n)

namespace Counted

theorem nil (n : ℕ) : Counted n [] n := ⟨rfl, rfl⟩

/-- Counting goes on from what is due. -/
theorem append (h : Counted n hs due) (h' : Counted due hs' due') :
    Counted n (hs ++ hs') due' := by
  constructor
  · rw [List.length_append, List.iterate_add, ← h.heights_eq, ← h.due_eq, ← h'.heights_eq]
  · rw [List.length_append, Nat.add_comm, Function.iterate_add_apply, ← h.due_eq]
    exact h'.due_eq

variable (h : Counted n hs due)
include h

/-- What comes first was counted as well. -/
theorem of_prefix (hfront : hs' <+: hs) : Counted n hs' (next^[hs'.length] n) := by
  refine ⟨?_, rfl⟩
  have htake := List.prefix_iff_eq_take.mp hfront
  rw [h.heights_eq, List.take_iterate, Nat.min_eq_left hfront.length_le] at htake
  exact htake

/-- **No height below the top is counted twice.** -/
theorem count_le_one (hg : g < top) : hs.count g ≤ 1 := by
  rw [h.heights_eq]
  exact count_iterate_le_one hg _ _

theorem le_of_mem (hn : n ≤ top) (hg : g ∈ hs) : n ≤ g := by
  rw [h.heights_eq, List.mem_iterate] at hg
  obtain ⟨m, -, rfl⟩ := hg
  rw [iterate_next hn]
  omega

/-- Once the top was counted, nothing else is due. -/
theorem due_of_mem (hmem : top ∈ hs) : due = top := by
  rw [h.heights_eq, List.mem_iterate] at hmem
  obtain ⟨m, hm, htop⟩ := hmem
  obtain ⟨j, hj⟩ := Nat.exists_eq_add_of_lt hm
  have hlength : hs.length = (j + 1) + m := by omega
  rw [h.due_eq, hlength, Function.iterate_add_apply, ← htop]
  exact Function.iterate_fixed next_top _

end Counted
end Height

namespace ChunkRange

theorem range'_eq_iterate {first k : ℕ} (h : first + k ≤ Height.top) :
    List.range' first (k + 1) = List.iterate Height.next first (k + 1) := by
  induction k generalizing first with
  | zero => rfl
  | succ k ih =>
    have hnext : Height.next first = first + 1 := Height.next_of_lt (by omega)
    rw [List.range'_succ, List.iterate, hnext, ih (by omega)]

/-- The heights of a range are counted up, and the one above its end is due. -/
theorem counted {r : ChunkRange} (h : r.last ≤ Height.top) :
    Height.Counted r.first r.heights (Height.next r.last) := by
  have hordered := r.ordered
  have hsize : r.size = (r.last - r.first) + 1 := rfl
  have hsum : r.first + (r.last - r.first) = r.last := by omega
  constructor
  · rw [length_heights, heights, hsize]
    exact range'_eq_iterate (by omega)
  · rw [length_heights, hsize, Function.iterate_succ_apply', Height.iterate_next (by omega), hsum,
      Nat.min_eq_left h]

theorem last_mem_heights (r : ChunkRange) : r.last ∈ r.heights :=
  mem_heights.mpr ⟨r.ordered, le_rfl⟩

/-- A range that begins at the top is that of the top alone. -/
theorem eq_top {r : ChunkRange} (hfirst : r.first = Height.top) (hlast : r.last ≤ Height.top) :
    r = ⟨Height.top, Height.top, le_rfl⟩ := by
  obtain ⟨first, last, hordered⟩ := r
  simp only at hfirst hlast
  obtain rfl : first = Height.top := hfirst
  obtain rfl : last = Height.top := by omega
  rfl

end ChunkRange

/-! ### What the planner hands out -/

namespace Planner

variable {p : Planner} {r : ChunkRange}

/-- A fresh range does not pass the top. -/
theorem last_le_top_of_fresh? (h : p.fresh? = some r) : r.last ≤ Height.top := by
  obtain ⟨-, -, head, -, hlast⟩ := fresh?_eq_some h
  unfold Height.add at hlast
  omega

/-- With the cursor at the top, the top is handed out as long as it is the head. -/
theorem fresh?_eq_none_iff (h : p.cursor = Height.top) :
    p.fresh? = none ↔ p.regressedTo ≠ none ∨ ∀ head ∈ p.head, head < Height.top := by
  constructor
  · intro hnone
    by_contra! hnot
    obtain ⟨hregressed, head, hhead, hle⟩ := hnot
    unfold fresh? at hnone
    simp only [hregressed, Option.mem_def.mp hhead] at hnone
    split at hnone
    · cases hnone
    · next hlast =>
      unfold Height.add at hlast
      omega
  · intro hor
    rw [Option.eq_none_iff_forall_ne_some]
    intro r hr
    obtain ⟨hregressed, hfirst, head, hhead, hlast⟩ := fresh?_eq_some hr
    have hordered := r.ordered
    rcases hor with hne | hlt
    · exact hne hregressed
    · have hhead := hlt head hhead
      omega

namespace Record

variable {low : ℕ} {c : Record} {x : Call}

/-- What every call keeps, whatever the heads and wherever the planner starts. -/
structure Counts (low : ℕ) (c : Record) : Prop where
  counted : Height.Counted (Height.next low) (c.issued.flatMap ChunkRange.heights) c.planner.cursor
  released_returned : ∀ k r, c.planner.released.find? k = some r → r ∈ c.returned

/-- **The law of a planner that starts above `low`**, whatever the heads. -/
structure Recounts (low : ℕ) (c : Record) : Prop where
  /-- The heights that are handed out for the first time are counted up one by one, and the cursor
  is the one that is due. -/
  counted : Height.Counted (Height.next low) (c.issued.flatMap ChunkRange.heights) c.planner.cursor
  /-- No height but the top is handed out for the first time twice. -/
  once : ∀ h, h < Height.top → (c.issued.flatMap ChunkRange.heights).count h ≤ 1
  /-- A planner that starts below the top hands out nothing from its start or below. -/
  above : low < Height.top → ∀ h ∈ c.issued.flatMap ChunkRange.heights, low < h
  /-- Once the top was handed out, nothing is handed out but ranges that were given back and the
  top alone. -/
  repeats : (∃ s ∈ c.issued, s.last = Height.top) → ∀ r, c.planner.next.1 = some r →
    r ∈ c.returned ∨ r = ⟨Height.top, Height.top, le_rfl⟩
  /-- Then nothing is handed out only if there is no released range to be handed out again, and the
  head has moved back or was never seen at the top. -/
  ceases_iff : (∃ s ∈ c.issued, s.last = Height.top) → (c.planner.next.1 = none ↔
    c.planner.reissue? = none ∧
      (c.planner.regressedTo ≠ none ∨ ∀ head ∈ c.planner.head, head < Height.top))

namespace Counts

theorem start (low : ℕ) {size : ℕ} (hsize : 0 < size) :
    Counts low ⟨.start low size hsize, [], [], [], []⟩ where
  counted := .nil _
  released_returned k r h := by cases h

variable (h : Counts low c)
include h

/-- Nothing is handed out for the first time, and the cursor stays. -/
theorem same {c' : Record} (hissued : c'.issued = c.issued)
    (hcursor : c'.planner.cursor = c.planner.cursor)
    (hreleased : ∀ k r, c'.planner.released.find? k = some r → r ∈ c'.returned) :
    Counts low c' where
  counted := by
    rw [hissued, hcursor]
    exact h.counted
  released_returned := hreleased

/-- **One call keeps the invariant.** -/
theorem note (x : Call) : Counts low (c.note x) := by
  cases x with
  | observe n =>
    obtain ⟨-, hcursor, -, hreleased⟩ := sameRanges_observe c.planner n
    refine h.same rfl hcursor fun k r hr => ?_
    exact h.released_returned k r (hreleased ▸ hr)
  | next =>
    rcases hre : c.planner.reissue? with _ | r
    · rcases hfr : c.planner.fresh? with _ | r
      · rw [note_of_none hre hfr]
        exact h
      · -- counting goes on with the heights of the fresh range
        obtain ⟨-, hfirst, -⟩ := fresh?_eq_some hfr
        rw [note_of_fresh? hre hfr]
        refine ⟨?_, h.released_returned⟩
        rw [List.flatMap_append, List.flatMap_singleton]
        refine h.counted.append ?_
        rw [← hfirst]
        exact ChunkRange.counted (last_le_top_of_fresh? hfr)
    · rw [note_of_reissue? hre]
      refine h.same rfl rfl fun k s hs => ?_
      exact h.released_returned k s (HeightMap.of_find?_erase hs).2
  | release r =>
    by_cases hr : c.planner.claimed.find? r.first = some r
    · rw [note_release_claimed hr]
      refine h.same rfl rfl fun k s hs => List.mem_append.mpr ?_
      rcases HeightMap.of_find?_insert hs with ⟨-, rfl⟩ | ⟨-, hold⟩
      · exact Or.inr (List.mem_singleton_self _)
      · exact Or.inl (h.released_returned k s hold)
    · rw [note_release_unclaimed hr]
      exact h
  | complete r =>
    by_cases hr : c.planner.claimed.find? r.first = some r
    · rw [note_complete_claimed hr]
      exact h.same rfl rfl h.released_returned
    · rw [note_complete_unclaimed hr]
      exact h

/-! ### From the invariant to the law -/

/-- Once the top was handed out, the cursor rests there. -/
theorem cursor_eq (htop : ∃ s ∈ c.issued, s.last = Height.top) :
    c.planner.cursor = Height.top := by
  obtain ⟨s, hs, hlast⟩ := htop
  exact h.counted.due_of_mem (List.mem_flatMap.mpr ⟨s, hs, hlast ▸ s.last_mem_heights⟩)

/-- **The invariant gives the law.** -/
theorem recounts : Recounts low c where
  counted := h.counted
  once _ hlt := h.counted.count_le_one hlt
  above hlow g hg := by
    have hle := h.counted.le_of_mem (Height.next_le_top low) hg
    rw [Height.next_of_lt hlow] at hle
    omega
  repeats htop r hr := by
    rcases reissue?_or_fresh?_of_next hr with hre | ⟨-, hfr⟩
    · obtain ⟨⟨k, hfirst⟩, -⟩ := reissue?_eq_some hre
      exact Or.inl (h.released_returned k r (HeightMap.find?_of_first? hfirst))
    · obtain ⟨-, hfirst, -⟩ := fresh?_eq_some hfr
      rw [h.cursor_eq htop] at hfirst
      exact Or.inr (ChunkRange.eq_top hfirst (last_le_top_of_fresh? hfr))
  ceases_iff htop := by
    rw [fst_next, Option.or_eq_none_iff, fresh?_eq_none_iff (h.cursor_eq htop)]

end Counts

/-- **No height but the top is handed out twice**, and the top is as long as it is the head.  A
planner that starts at any height, with ranges of any size, obeys `Recounts` after any calls. -/
theorem recounts_after (low : ℕ) {size : ℕ} (hsize : 0 < size) (calls : List Call) :
    Recounts low (after (.start low size hsize) calls) := by
  have hcounts : Counts low (after (.start low size hsize) calls) := by
    unfold after
    induction calls using List.reverseRecOn with
    | nil => exact .start low hsize
    | append_singleton calls x ih =>
      rw [List.foldl_append]
      exact ih.note x
  exact hcounts.recounts

end Record
end Planner
end BlockIngest
