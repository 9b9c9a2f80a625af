import BlockIngest.Proofs.Planner.Partition

/-!
# Ranges at the top

The law of the planner asks that heads stay below the top.  With a head at the top the
cursor comes to rest there, and then the range of the top alone may be handed out more
than once, and may share the top with an earlier one.  The ranges no longer partition
the heights; but none gets lost, and those that begin at one height are the same.

## Main definitions

* `Planner.Record.Handed` — what every call keeps, whatever the heads.

## Main results

* `Planner.Record.Handed.note` — **one call keeps the invariant.**
* `Planner.Record.Handed.eq_of_mem_first` — a height below the top tells ranges apart.
-/

namespace BlockIngest
namespace Planner
namespace Record

/-- What every call keeps, whatever the heads.  Claimed and released ranges are found by
their lowest height. -/
structure Handed (low : ℕ) (c : Record) : Prop where
  low_lt_cursor : low < c.planner.cursor
  cursor_le_top : c.planner.cursor ≤ Height.top
  above : ∀ r ∈ c.issued, low < r.first
  below : ∀ r ∈ c.issued, r.last ≤ Height.top ∧ Height.next r.last ≤ c.planner.cursor
  apart : ∀ r ∈ c.issued, ∀ s ∈ c.issued, r.first < s.first → Height.next r.last ≤ s.first
  first_inj : ∀ r ∈ c.issued, ∀ s ∈ c.issued, r.first = s.first → r = s
  claimed_issued : ∀ k r, c.planner.claimed.find? k = some r → r.first = k ∧ r ∈ c.issued
  released_issued : ∀ k r, c.planner.released.find? k = some r → r.first = k ∧ r ∈ c.issued
  placed : ∀ r ∈ c.issued, c.planner.claimed.find? r.first = some r ∨
    c.planner.released.find? r.first = some r ∨ r ∈ c.completed

variable {low : ℕ} {c : Record} {r s : ChunkRange}

/-! ### The record of a call -/

theorem note_of_reissue? (hre : c.planner.reissue? = some r) :
    c.note .next = { c with planner := { c.planner with
      released := c.planner.released.erase r.first
      claimed := c.planner.claimed.insert r.first r } } := by
  unfold note answer
  simp only [next_of_reissue? hre, hre, Option.isSome_some, if_true]

theorem note_of_fresh? (hre : c.planner.reissue? = none) (hfr : c.planner.fresh? = some r) :
    c.note .next = { c with
      planner := { c.planner with
        cursor := Height.next r.last, claimed := c.planner.claimed.insert r.first r }
      issued := c.issued ++ [r] } := by
  unfold note answer
  simp only [next_of_fresh? hre hfr, hre, Option.isSome_none, Bool.false_eq_true, if_false,
    Option.toList_some]

theorem note_of_none (hre : c.planner.reissue? = none) (hfr : c.planner.fresh? = none) :
    c.note .next = c := by
  unfold note answer
  simp only [next_of_none hre hfr, Option.toList_none, List.append_nil, ite_self]

theorem note_release_claimed (hr : c.planner.claimed.find? r.first = some r) :
    c.note (.release r) = { c with
      planner := { c.planner with
        claimed := c.planner.claimed.erase r.first
        released := c.planner.released.insert r.first r }
      returned := c.returned ++ [r] } := by
  unfold note answer
  simp only [release_claimed hr, if_true]

theorem note_release_unclaimed (hr : c.planner.claimed.find? r.first ≠ some r) :
    c.note (.release r) = c := by
  unfold note answer
  simp only [release_unclaimed hr, Bool.false_eq_true, if_false]

theorem note_complete_claimed (hr : c.planner.claimed.find? r.first = some r) :
    c.note (.complete r) = { c with
      planner := { c.planner with claimed := c.planner.claimed.erase r.first }
      completed := c.completed ++ [r] } := by
  unfold note answer
  simp only [complete_claimed hr, if_true]

theorem note_complete_unclaimed (hr : c.planner.claimed.find? r.first ≠ some r) :
    c.note (.complete r) = c := by
  unfold note answer
  simp only [complete_unclaimed hr, Bool.false_eq_true, if_false]

theorem issued_subset_note (c : Record) (x : Call) : c.issued ⊆ (c.note x).issued := by
  intro r hr
  cases x with
  | next =>
    show r ∈ if c.planner.reissue?.isSome then _ else _
    split
    · exact hr
    · exact List.mem_append_left _ hr
  | observe | release | complete => exact hr

namespace Handed

variable (h : Handed low c)
include h

/-- Below the top, a height tells ranges apart. -/
theorem eq_of_mem_first (hr : r ∈ c.issued) (hs : s ∈ c.issued) (hmem : s.Mem r.first)
    (htop : r.first < Height.top) : r = s := by
  obtain ⟨hle, hlast⟩ := hmem
  rcases Nat.eq_or_lt_of_le hle with heq | hlt
  · exact h.first_inj r hr s hs heq.symm
  · -- the other range would end before this one begins
    have hnext := h.apart s hs r hr hlt
    unfold Height.next Height.add at hnext
    omega

theorem issued_of_claimed {k : ℕ} (hr : c.planner.claimed.find? k = some r) : r ∈ c.issued :=
  (h.claimed_issued k r hr).2

theorem note_observe (n : ℕ) : Handed low (c.note (.observe n)) := by
  obtain ⟨-, hcursor, hclaimed, hreleased⟩ := sameRanges_observe c.planner n
  constructor
  · exact hcursor ▸ h.low_lt_cursor
  · exact hcursor ▸ h.cursor_le_top
  · exact h.above
  · exact hcursor ▸ h.below
  · exact h.apart
  · exact h.first_inj
  · exact hclaimed ▸ h.claimed_issued
  · exact hreleased ▸ h.released_issued
  · exact hclaimed ▸ hreleased ▸ h.placed

/-- A released range is handed out again. -/
theorem note_reissue (hre : c.planner.reissue? = some r) : Handed low (c.note .next) := by
  obtain ⟨⟨k, hfirst⟩, -⟩ := reissue?_eq_some hre
  have hr : r ∈ c.issued := (h.released_issued k r (HeightMap.find?_of_first? hfirst)).2
  rw [note_of_reissue? hre]
  refine { h with claimed_issued := ?_, released_issued := ?_, placed := ?_ }
  · intro j s hs
    rcases HeightMap.of_find?_insert hs with ⟨hj, rfl⟩ | ⟨-, hold⟩
    · exact ⟨hj, hr⟩
    · exact h.claimed_issued j s hold
  · intro j s hs
    exact h.released_issued j s (HeightMap.of_find?_erase hs).2
  · intro s hs
    show (c.planner.claimed.insert r.first r).find? s.first = some s ∨
      (c.planner.released.erase r.first).find? s.first = some s ∨ s ∈ c.completed
    rw [HeightMap.find?_insert, HeightMap.find?_erase]
    split
    · next heq => exact Or.inl (congrArg some (h.first_inj r hr s hs heq))
    · exact h.placed s hs

/-- A fresh range is handed out. -/
theorem note_fresh (hre : c.planner.reissue? = none) (hfr : c.planner.fresh? = some r) :
    Handed low (c.note .next) := by
  obtain ⟨-, hfirst, head, -, hlast⟩ := fresh?_eq_some hfr
  have htop : r.last ≤ Height.top := by
    unfold Height.add at hlast
    omega
  have hordered := r.ordered
  have hnext := Height.le_next htop
  have hcursor := h.low_lt_cursor
  have hsplit : ∀ s ∈ c.issued ++ [r], s ∈ c.issued ∨ s = r := fun s hs =>
    (List.mem_append.mp hs).imp_right List.mem_singleton.mp
  -- an earlier range that begins at the cursor is the one of the top alone
  have hsame : ∀ s ∈ c.issued, s.first = r.first → s = r := by
    intro s hs heq
    obtain ⟨hstop, hbelow⟩ := h.below s hs
    have hsordered := s.ordered
    unfold Height.next Height.add at hbelow
    obtain ⟨sf, sl, _⟩ := s
    obtain ⟨rf, rl, _⟩ := r
    simp only at heq hstop hbelow hsordered htop hordered hfirst
    obtain rfl : sf = rf := heq
    obtain rfl : sl = rl := by omega
    rfl
  -- and none begins above the cursor
  have hle : ∀ s ∈ c.issued, s.first ≤ r.first := by
    intro s hs
    obtain ⟨hstop, hbelow⟩ := h.below s hs
    have hsordered := s.ordered
    have hsnext := Height.le_next hstop
    omega
  rw [note_of_fresh? hre hfr]
  constructor
  · show low < Height.next r.last
    omega
  · exact Height.next_le_top _
  · intro s hs
    rcases hsplit s hs with hs | rfl
    · exact h.above s hs
    · omega
  · intro s hs
    rcases hsplit s hs with hs | rfl
    · obtain ⟨hstop, hbelow⟩ := h.below s hs
      exact ⟨hstop, show Height.next s.last ≤ Height.next r.last by omega⟩
    · exact ⟨htop, le_rfl⟩
  · intro s hs u hu hlt
    rcases hsplit s hs with hold | rfl
    · rcases hsplit u hu with hold' | rfl
      · exact h.apart s hold u hold' hlt
      · rw [hfirst]
        exact (h.below s hold).2
    · rcases hsplit u hu with hold | rfl
      · exact absurd (hle u hold) (Nat.not_le.mpr hlt)
      · exact absurd hlt (lt_irrefl _)
  · intro s hs u hu heq
    rcases hsplit s hs with hold | rfl
    · rcases hsplit u hu with hold' | rfl
      · exact h.first_inj s hold u hold' heq
      · exact hsame s hold heq
    · rcases hsplit u hu with hold | rfl
      · exact (hsame u hold heq.symm).symm
      · rfl
  · intro j s hs
    rw [HeightMap.find?_insert] at hs
    split at hs
    · next hj =>
      cases hs
      exact ⟨hj, by simp⟩
    · obtain ⟨hkey, hin⟩ := h.claimed_issued j s hs
      exact ⟨hkey, List.mem_append_left _ hin⟩
  · intro j s hs
    obtain ⟨hkey, hin⟩ := h.released_issued j s hs
    exact ⟨hkey, List.mem_append_left _ hin⟩
  · intro s hs
    show (c.planner.claimed.insert r.first r).find? s.first = some s ∨ _
    rw [HeightMap.find?_insert]
    rcases hsplit s hs with hs | rfl
    · split
      · next heq => exact Or.inl (congrArg some (hsame s hs heq.symm).symm)
      · exact h.placed s hs
    · exact Or.inl (if_pos rfl)

/-- A claimed range is given back. -/
theorem note_release (r : ChunkRange) : Handed low (c.note (.release r)) := by
  by_cases hr : c.planner.claimed.find? r.first = some r
  · have hissued := h.issued_of_claimed hr
    rw [note_release_claimed hr]
    refine { h with claimed_issued := ?_, released_issued := ?_, placed := ?_ }
    · intro j s hs
      exact h.claimed_issued j s (HeightMap.of_find?_erase hs).2
    · intro j s hs
      rcases HeightMap.of_find?_insert hs with ⟨hj, rfl⟩ | ⟨-, hold⟩
      · exact ⟨hj, hissued⟩
      · exact h.released_issued j s hold
    · intro s hs
      show (c.planner.claimed.erase r.first).find? s.first = some s ∨
        (c.planner.released.insert r.first r).find? s.first = some s ∨ s ∈ c.completed
      rw [HeightMap.find?_insert, HeightMap.find?_erase]
      split
      · next heq => exact Or.inr (Or.inl (congrArg some (h.first_inj r hissued s hs heq)))
      · exact h.placed s hs
  · rw [note_release_unclaimed hr]
    exact h

/-- A claimed range is done. -/
theorem note_complete (r : ChunkRange) : Handed low (c.note (.complete r)) := by
  by_cases hr : c.planner.claimed.find? r.first = some r
  · have hissued := h.issued_of_claimed hr
    rw [note_complete_claimed hr]
    refine { h with claimed_issued := ?_, placed := ?_ }
    · intro j s hs
      exact h.claimed_issued j s (HeightMap.of_find?_erase hs).2
    · intro s hs
      show (c.planner.claimed.erase r.first).find? s.first = some s ∨ _ ∨ s ∈ c.completed ++ [r]
      rw [HeightMap.find?_erase]
      split
      · next heq => exact Or.inr (Or.inr (by simp [h.first_inj r hissued s hs heq]))
      · exact (h.placed s hs).imp_right (Or.imp_right (List.mem_append_left _))
  · rw [note_complete_unclaimed hr]
    exact h

/-- **One call keeps the invariant.** -/
theorem note (x : Call) : Handed low (c.note x) := by
  cases x with
  | observe n => exact h.note_observe n
  | next =>
    rcases hre : c.planner.reissue? with _ | r
    · rcases hfr : c.planner.fresh? with _ | r
      · rw [note_of_none hre hfr]
        exact h
      · exact h.note_fresh hre hfr
    · exact h.note_reissue hre
  | release r => exact h.note_release r
  | complete r => exact h.note_complete r

end Handed

theorem handed_start {size : ℕ} (hlow : low < Height.top) (hsize : 0 < size) :
    Handed low ⟨.start low size hsize, [], [], [], []⟩ := by
  have hnext : Height.next low = low + 1 := Height.next_of_lt hlow
  refine ⟨?_, Height.next_le_top _, ?_, ?_, ?_, ?_, ?_, ?_, ?_⟩
  · show low < Height.next low
    omega
  all_goals simp [start]

end Record
end Planner
end BlockIngest
