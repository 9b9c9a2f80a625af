import BlockIngest.Proofs.Planner.Places

/-!
# Ranges that the node does not serve yet

No range is handed out before a head was observed at or above its end, and the head that
the planner keeps never goes down.  So a node that lacks a height of such a range is
behind that head, and the planner notices it: it hands out nothing fresh, and of the
released ranges only one that ends at or below the head that was observed last.  The
range with the missing height ends above it.  It stays on the shelf until a head is
observed that reaches its end.

## Main definitions

* `Planner.Headed` — claimed and released ranges end at or below the head.
* `Planner.Shelved` — a released range that the node does not serve.

## Main results

* `Planner.Headed.answer` — every call keeps ranges below the head.
* `Planner.Headed.shelve` — **a range with a missing height comes on the shelf.**
* `Planner.Shelved.lower` — whatever is handed out ends below a range on the shelf.
* `Planner.Shelved.notes` — **a range stays on the shelf until a head reaches its end.**
-/

namespace BlockIngest
namespace Planner

variable {p : Planner} {r s : ChunkRange} {n : ℕ}

/-! ### Ranges and the head -/

/-- Claimed and released ranges end at or below the head. -/
def Headed (p : Planner) : Prop :=
  ∀ k r, p.claimed.find? k = some r ∨ p.released.find? k = some r →
    ∃ head, p.head = some head ∧ r.last ≤ head

/-- A head below the one that is known is noticed as a step back, and moves nothing. -/
theorem observe_of_lt {known : ℕ} (h : p.head = some known) (hlt : n < known) :
    p.observe n = (true, { p with regressedTo := some n }) := by
  unfold observe
  simp only [h, hlt, if_true]

/-- Once a head is known, it does not go down. -/
theorem head_le_observe {known : ℕ} (h : p.head = some known) (n : ℕ) :
    ∃ head, (p.observe n).2.head = some head ∧ known ≤ head := by
  by_cases hlt : n < known
  · rw [observe_of_lt h hlt]
    exact ⟨known, h, le_rfl⟩
  · unfold observe
    simp only [h, hlt, if_false]
    exact ⟨n, rfl, Nat.le_of_not_lt hlt⟩

theorem headed_start (low size : ℕ) (hsize : 0 < size) : (start low size hsize).Headed := by
  rintro k r (hr | hr) <;> cases hr

namespace Headed

variable (h : p.Headed)
include h

theorem observe (n : ℕ) : (p.observe n).2.Headed := by
  obtain ⟨-, -, hclaimed, hreleased⟩ := sameRanges_observe p n
  intro k r hr
  rw [hclaimed, hreleased] at hr
  obtain ⟨known, hknown, hle⟩ := h k r hr
  obtain ⟨head, hhead, hle'⟩ := head_le_observe hknown n
  exact ⟨head, hhead, hle.trans hle'⟩

theorem next : p.next.2.Headed := by
  rcases hre : p.reissue? with _ | s
  · rcases hfr : p.fresh? with _ | s
    · rw [next_of_none hre hfr]
      exact h
    · obtain ⟨-, -, head, hhead, hlast⟩ := fresh?_eq_some hfr
      rw [next_of_fresh? hre hfr]
      rintro k r (hr | hr)
      · rcases HeightMap.of_find?_insert hr with ⟨-, rfl⟩ | ⟨-, hold⟩
        · exact ⟨head, hhead, by omega⟩
        · exact h k r (Or.inl hold)
      · exact h k r (Or.inr hr)
  · obtain ⟨⟨j, hfirst⟩, -⟩ := reissue?_eq_some hre
    rw [next_of_reissue? hre]
    rintro k r (hr | hr)
    · rcases HeightMap.of_find?_insert hr with ⟨-, rfl⟩ | ⟨-, hold⟩
      · exact h j _ (Or.inr (HeightMap.find?_of_first? hfirst))
      · exact h k r (Or.inl hold)
    · exact h k r (Or.inr (HeightMap.of_find?_erase hr).2)

theorem release (s : ChunkRange) : (p.release s).2.Headed := by
  by_cases hs : p.claimed.find? s.first = some s
  · rw [release_claimed hs]
    rintro k r (hr | hr)
    · exact h k r (Or.inl (HeightMap.of_find?_erase hr).2)
    · rcases HeightMap.of_find?_insert hr with ⟨-, rfl⟩ | ⟨-, hold⟩
      · exact h _ _ (Or.inl hs)
      · exact h k r (Or.inr hold)
  · rw [release_unclaimed hs]
    exact h

theorem complete (s : ChunkRange) : (p.complete s).2.Headed := by
  by_cases hs : p.claimed.find? s.first = some s
  · rw [complete_claimed hs]
    rintro k r (hr | hr)
    · exact h k r (Or.inl (HeightMap.of_find?_erase hr).2)
    · exact h k r (Or.inr hr)
  · rw [complete_unclaimed hs]
    exact h

/-- Every call keeps ranges below the head. -/
theorem answer (x : Call) : (p.answer x).Headed := by
  cases x with
  | observe n => exact h.observe n
  | next => exact h.next
  | release s => exact h.release s
  | complete s => exact h.complete s

theorem answers (xs : List Call) : (xs.foldl Planner.answer p).Headed := by
  induction xs generalizing p with
  | nil => exact h
  | cons x xs ih => exact ih (h.answer x)

end Headed

/-! ### On the shelf -/

/-- A released range that the node does not serve: the head has moved back below its end. -/
structure Shelved (r : ChunkRange) (p : Planner) : Prop where
  released : p.released.find? r.first = some r
  behind : ∃ available, p.regressedTo = some available ∧ available < r.last
  headed : ∃ head, p.head = some head ∧ r.last ≤ head

/-- **A range with a missing height comes on the shelf.**  Observing the head below that
height is noticed as a step back; it moves nothing, and the range is given back as it is. -/
theorem Headed.shelve (h : p.Headed) (hr : p.claimed.find? r.first = some r)
    (hpos : 0 < r.first) (hmem : r.Mem n) :
    p.observe (Height.prev n) = (true, { p with regressedTo := some (Height.prev n) }) ∧
      (p.observe (Height.prev n)).2.release r = (true, { p with
        regressedTo := some (Height.prev n)
        claimed := p.claimed.erase r.first
        released := p.released.insert r.first r }) ∧
      ((p.observe (Height.prev n)).2.release r).2.Shelved r := by
  obtain ⟨head, hhead, hlast⟩ := h r.first r (Or.inl hr)
  obtain ⟨hfirst, hle⟩ := hmem
  have hprev : Height.prev n < r.last := by
    unfold Height.prev
    omega
  have hobserve := observe_of_lt hhead (hprev.trans_le hlast)
  have hrelease : (p.observe (Height.prev n)).2.release r = (true, { p with
      regressedTo := some (Height.prev n)
      claimed := p.claimed.erase r.first
      released := p.released.insert r.first r }) := by
    rw [hobserve]
    exact release_claimed hr
  refine ⟨hobserve, hrelease, ?_⟩
  rw [hrelease]
  exact ⟨HeightMap.find?_insert_self _ _ _, ⟨_, rfl, hprev⟩, ⟨head, hhead, hlast⟩⟩

namespace Shelved

/-- Whatever is handed out ends below it. -/
theorem lower (h : p.Shelved r) (hs : p.next.1 = some s) : s.last < r.last := by
  obtain ⟨available, hbehind, hlt⟩ := h.behind
  rcases reissue?_or_fresh?_of_next hs with hre | ⟨-, hfr⟩
  · exact ((reissue?_eq_some hre).2 available hbehind).trans_lt hlt
  · rw [(fresh?_eq_some hfr).1] at hbehind
    cases hbehind

/-- So it is not handed out itself. -/
theorem next_ne (h : p.Shelved r) : p.next.1 ≠ some r :=
  fun hr => absurd (h.lower hr) (lt_irrefl _)

theorem observe (h : p.Shelved r) (hn : n < r.last) : (p.observe n).2.Shelved r := by
  obtain ⟨head, hhead, hle⟩ := h.headed
  rw [observe_of_lt hhead (hn.trans_le hle)]
  exact ⟨h.released, ⟨n, rfl, hn⟩, h.headed⟩

section Record

variable {low : ℕ} {c : Record} {x : Call} {xs : List Call}

/-- A call that observes no head at or above its end leaves it on the shelf. -/
theorem note (h : c.planner.Shelved r) (hhanded : c.Handed low)
    (hx : ∀ n, x = .observe n → n < r.last) : (c.note x).planner.Shelved r := by
  have hissued := (hhanded.released_issued _ _ h.released).2
  cases x with
  | observe n => exact h.observe (hx n rfl)
  | next =>
    obtain ⟨hhead, hbehind⟩ := sameHead_next c.planner
    refine ⟨?_, hbehind ▸ h.behind, hhead ▸ h.headed⟩
    show c.planner.next.2.released.find? r.first = some r
    rcases hre : c.planner.reissue? with _ | s
    · rcases hfr : c.planner.fresh? with _ | s
      · rw [next_of_none hre hfr]
        exact h.released
      · rw [next_of_fresh? hre hfr]
        exact h.released
    · -- another range leaves the shelf, which begins elsewhere
      have hs : c.planner.next.1 = some s := congrArg Prod.fst (next_of_reissue? hre)
      obtain ⟨⟨k, hfirst⟩, -⟩ := reissue?_eq_some hre
      have hsissued := (hhanded.released_issued k s (HeightMap.find?_of_first? hfirst)).2
      have hne : s.first ≠ r.first := by
        intro heq
        cases hhanded.first_inj s hsissued r hissued heq
        exact h.next_ne hs
      rw [next_of_reissue? hre, HeightMap.find?_erase, if_neg hne]
      exact h.released
  | release s =>
    obtain ⟨hhead, hbehind⟩ := sameHead_release c.planner s
    refine ⟨?_, hbehind ▸ h.behind, hhead ▸ h.headed⟩
    show (c.planner.release s).2.released.find? r.first = some r
    by_cases hs : c.planner.claimed.find? s.first = some s
    · rw [release_claimed hs, HeightMap.find?_insert]
      split
      · next heq => rw [hhanded.first_inj s (hhanded.issued_of_claimed hs) r hissued heq]
      · exact h.released
    · rw [release_unclaimed hs]
      exact h.released
  | complete s =>
    obtain ⟨hhead, hbehind⟩ := sameHead_complete c.planner s
    refine ⟨?_, hbehind ▸ h.behind, hhead ▸ h.headed⟩
    show (c.planner.complete s).2.released.find? r.first = some r
    unfold complete
    split <;> exact h.released

/-- **A range stays on the shelf until a head reaches its end.** -/
theorem notes (h : c.planner.Shelved r) (hhanded : c.Handed low)
    (hxs : ∀ n, .observe n ∈ xs → n < r.last) : (xs.foldl Record.note c).planner.Shelved r := by
  induction xs generalizing c with
  | nil => exact h
  | cons x xs ih =>
    refine ih (h.note hhanded fun n hx => hxs n ?_) (hhanded.note x) fun n hn => hxs n ?_
    · exact hx ▸ List.mem_cons_self
    · exact List.mem_cons_of_mem _ hn

end Record
end Shelved
end Planner
end BlockIngest
