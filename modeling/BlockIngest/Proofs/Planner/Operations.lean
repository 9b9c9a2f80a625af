import BlockIngest.Planner
import BlockIngest.Proofs.HeightMap

/-!
# What the operations of the planner do

Each operation of the planner does one of few things.  The lemmas here say which
ones, with everything the operation has checked, so that nothing below needs to
open a definition of the planner again.

## Main results

* `Planner.next_of_reissue?`, `Planner.next_of_fresh?`, `Planner.next_of_none` —
  the three outcomes of asking for a range.
* `Planner.reissue?_eq_some`, `Planner.fresh?_eq_some` — what is known of a range
  that is handed out.
* `Planner.fst_next`, `Planner.reissue?_eq`, `Planner.exists_fresh?` — which range
  that is.
* `Planner.release_claimed`, `Planner.complete_claimed` — a claimed range given
  back or done.
* `Planner.release_unclaimed`, `Planner.complete_unclaimed` — any other range
  changes nothing.
* `Planner.head_observe`, `Planner.sameRanges_observe` — an observation moves the
  head and no range.
* `Planner.sameHead_next`, `Planner.sameHead_release`, `Planner.sameHead_complete` —
  the other calls do not move the head.
-/

namespace BlockIngest
namespace Planner

variable {p : Planner} {r : ChunkRange}

/-! ### Handing out -/

/-- The released range that is handed out again is the lowest one, and the node
serves all of it. -/
theorem reissue?_eq_some (h : p.reissue? = some r) :
    (∃ k, p.released.first? = some (k, r)) ∧ ∀ a, p.regressedTo = some a → r.last ≤ a := by
  unfold reissue? at h
  split at h
  case h_2 => cases h
  case h_1 k lowest hfirst =>
    split at h
    case h_1 available hreg =>
      split at h
      · next hle =>
        cases h
        refine ⟨⟨k, hfirst⟩, fun a ha => ?_⟩
        rw [hreg] at ha
        cases ha
        exact hle
      · cases h
    case h_2 hreg =>
      cases h
      refine ⟨⟨k, hfirst⟩, fun a ha => ?_⟩
      rw [hreg] at ha
      cases ha

/-- A fresh range begins at the cursor, is as long as it may be, and does not
pass the head. -/
theorem fresh?_eq_some (h : p.fresh? = some r) :
    p.regressedTo = none ∧ r.first = p.cursor ∧
      ∃ head, p.head = some head ∧ r.last = min (Height.add p.cursor (p.maxSize - 1)) head := by
  unfold fresh? at h
  split at h
  case h_2 => cases h
  case h_1 head hreg hhead =>
    simp only at h
    split at h
    · cases h
      exact ⟨hreg, rfl, head, hhead, rfl⟩
    · cases h

theorem size_le_of_fresh? (h : p.fresh? = some r) : r.size ≤ p.maxSize := by
  obtain ⟨-, hfirst, head, -, hlast⟩ := fresh?_eq_some h
  have hadd : Height.add p.cursor (p.maxSize - 1) ≤ p.cursor + (p.maxSize - 1) :=
    Nat.min_le_left _ _
  have hpos := p.maxSize_pos
  unfold ChunkRange.size
  omega

/-- A released range that the node serves is handed out first. -/
theorem next_of_reissue? (h : p.reissue? = some r) : p.next = (some r, { p with
    released := p.released.erase r.first, claimed := p.claimed.insert r.first r }) := by
  unfold next
  rw [h]

theorem next_of_fresh? (hre : p.reissue? = none) (hfr : p.fresh? = some r) :
    p.next = (some r, { p with
      cursor := Height.next r.last, claimed := p.claimed.insert r.first r }) := by
  unfold next
  rw [hre, hfr]

theorem next_of_none (hre : p.reissue? = none) (hfr : p.fresh? = none) :
    p.next = (none, p) := by
  unfold next
  rw [hre, hfr]

/-- A planner that is asked for a range looks for a released one first. -/
theorem fst_next (p : Planner) : p.next.1 = p.reissue?.or p.fresh? := by
  unfold next
  rcases p.reissue? with _ | r
  · rcases p.fresh? with _ | r <;> rfl
  · rfl

/-- Of the released ranges the first one alone is looked at. -/
theorem reissue?_eq (p : Planner) : p.reissue? =
    (p.released.first?.map Prod.snd).filter fun r => p.regressedTo.all (r.last ≤ ·) := by
  unfold reissue?
  rcases p.released.first? with _ | ⟨k, lowest⟩
  · rfl
  · rcases p.regressedTo with _ | available
    · rfl
    · simp only [Option.map_some, Option.filter_some, Option.all_some, decide_eq_true_eq]

/-- There is a fresh range as long as the cursor has not passed the head. -/
theorem exists_fresh? {head : ℕ} (hregressed : p.regressedTo = none) (hhead : p.head = some head)
    (hcursor : p.cursor ≤ head) (htop : head ≤ Height.top) :
    ∃ r, p.fresh? = some r ∧ r.first = p.cursor ∧
      r.last = min (p.cursor + p.maxSize - 1) head := by
  have hpos := p.maxSize_pos
  have hlast : min (Height.add p.cursor (p.maxSize - 1)) head
      = min (p.cursor + p.maxSize - 1) head := by
    unfold Height.add
    omega
  have hle : p.cursor ≤ min (Height.add p.cursor (p.maxSize - 1)) head := by omega
  refine ⟨⟨p.cursor, _, hle⟩, ?_, rfl, hlast⟩
  unfold fresh?
  simp only [hregressed, hhead, dif_pos hle]

/-- There is none once it has. -/
theorem fresh?_eq_none {head : ℕ} (hhead : p.head = some head) (hcursor : head < p.cursor) :
    p.fresh? = none := by
  rw [Option.eq_none_iff_forall_ne_some]
  intro r hr
  obtain ⟨-, hfirst, known, hknown, hlast⟩ := fresh?_eq_some hr
  have hordered := r.ordered
  rw [hhead, Option.some.injEq] at hknown
  omega

/-- **What is handed out** is either a released range or, if there is none to hand
out, a fresh one. -/
theorem reissue?_or_fresh?_of_next (h : p.next.1 = some r) :
    p.reissue? = some r ∨ p.reissue? = none ∧ p.fresh? = some r := by
  rcases hre : p.reissue? with _ | s
  · rcases hfr : p.fresh? with _ | s
    · rw [next_of_none hre hfr] at h
      cases h
    · rw [next_of_fresh? hre hfr] at h
      exact Or.inr ⟨rfl, h⟩
  · rw [next_of_reissue? hre] at h
    exact Or.inl h

/-! ### Giving back and completing -/

theorem isClaimed_iff : p.isClaimed r = true ↔ p.claimed.find? r.first = some r := by
  unfold isClaimed
  exact decide_eq_true_iff

theorem release_claimed (h : p.claimed.find? r.first = some r) :
    p.release r = (true, { p with
      claimed := p.claimed.erase r.first, released := p.released.insert r.first r }) := by
  unfold release
  rw [if_pos (isClaimed_iff.mpr h)]

theorem release_unclaimed (h : p.claimed.find? r.first ≠ some r) : p.release r = (false, p) := by
  unfold release
  rw [if_neg fun hc => h (isClaimed_iff.mp hc)]

theorem complete_claimed (h : p.claimed.find? r.first = some r) :
    p.complete r = (true, { p with claimed := p.claimed.erase r.first }) := by
  unfold complete
  rw [if_pos (isClaimed_iff.mpr h)]

theorem complete_unclaimed (h : p.claimed.find? r.first ≠ some r) :
    p.complete r = (false, p) := by
  unfold complete
  rw [if_neg fun hc => h (isClaimed_iff.mp hc)]

/-! ### Observing -/

/-- The head is the one observed last, unless that one was lower. -/
theorem head_observe (p : Planner) (head : ℕ) :
    (p.observe head).2.head = p.head ∨ (p.observe head).2.head = some head := by
  unfold observe
  split
  · split
    · exact Or.inl rfl
    · exact Or.inr rfl
  · exact Or.inr rfl

/-- A call that observes nothing leaves the head as it is, and whether it has moved
back. -/
theorem sameHead_next (p : Planner) :
    p.next.2.head = p.head ∧ p.next.2.regressedTo = p.regressedTo := by
  unfold next
  split
  · exact ⟨rfl, rfl⟩
  · split <;> exact ⟨rfl, rfl⟩

theorem sameHead_release (p : Planner) (r : ChunkRange) :
    (p.release r).2.head = p.head ∧ (p.release r).2.regressedTo = p.regressedTo := by
  unfold release
  split <;> exact ⟨rfl, rfl⟩

theorem sameHead_complete (p : Planner) (r : ChunkRange) :
    (p.complete r).2.head = p.head ∧ (p.complete r).2.regressedTo = p.regressedTo := by
  unfold complete
  split <;> exact ⟨rfl, rfl⟩

/-- An observation leaves the cursor and all ranges as they are. -/
theorem sameRanges_observe (p : Planner) (head : ℕ) :
    (p.observe head).2.maxSize = p.maxSize ∧ (p.observe head).2.cursor = p.cursor ∧
      (p.observe head).2.claimed = p.claimed ∧ (p.observe head).2.released = p.released := by
  unfold observe
  split
  · split <;> exact ⟨rfl, rfl, rfl, rfl⟩
  · exact ⟨rfl, rfl, rfl, rfl⟩

end Planner
end BlockIngest
