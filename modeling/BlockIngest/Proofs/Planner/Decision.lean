import BlockIngest.Proofs.Planner.Partition

/-!
# Which range a planner hands out

A planner that is asked for a range looks at the lowest released range, and at no
other one.  While the head stands where it was highest, that is the range to hand
out, and if there is none, a fresh range is.  When the head has moved back, the node
may serve some of the released ranges and not others; looking at the lowest one is
still enough, because the ranges are disjoint, so that the lowest one also ends first.

## Main definitions

* `Planner.Record.Lowest` — a range below all others.
* `Planner.Record.Observed` — what the planner keeps of the heads observed.
* `Planner.Record.Decides` — the law.

## Main results

* `Planner.Record.Observed.note` — one call keeps what is known of the heads.
* `Planner.Record.Tracked.lowest_of_first?` — the released range with the least key
  lies below all others.
* `Planner.decides_after` — **which range a planner hands out.**
-/

namespace BlockIngest
namespace Planner
namespace Record

variable {low size : ℕ} {c : Record} {r : ChunkRange}

/-- Whether a range is one of these, and lies below all others. -/
def Lowest (r : ChunkRange) (rs : List ChunkRange) : Prop :=
  r ∈ rs ∧ ∀ s ∈ rs, s ≠ r → r.last < s.first

/-- **Which range is handed out** by a planner with ranges of at most `size` heights,
whatever was asked of it before. -/
structure Decides (size : ℕ) (c : Record) : Prop where
  /-- The head is the greatest one observed. -/
  head_eq : c.planner.head = c.heads.max?
  /-- It has moved back if and only if the latest one is lower. -/
  regressed_iff : c.planner.regressed ↔
    ∃ a m, c.heads.getLast? = some a ∧ c.heads.max? = some m ∧ a < m
  /-- Before a head was observed nothing is handed out. -/
  unobserved : c.heads = [] → c.planner.next.1 = none
  /-- While the head stands, the lowest released range is handed out, if there is one. -/
  released : ¬ c.planner.regressed → c.planner.released.values ≠ [] →
    ∃ r, c.planner.next.1 = some r ∧ Lowest r c.planner.released.values
  /-- If there is none, the fresh range at the cursor is: as long as it may be, but not
  past the head. -/
  fresh : ∀ m, c.heads.max? = some m → ¬ c.planner.regressed →
    c.planner.released.values = [] → c.planner.cursor ≤ m →
      ∃ r, c.planner.next.1 = some r ∧ r.first = c.planner.cursor ∧
        r.last = min (c.planner.cursor + size - 1) m
  /-- Nothing is handed out once the cursor has passed the head. -/
  exhausted : ∀ m, c.heads.max? = some m → ¬ c.planner.regressed →
    c.planner.released.values = [] → m < c.planner.cursor → c.planner.next.1 = none
  /-- After the head has moved back, only the lowest released range is handed out, and
  only if it ends at or below the latest head. -/
  served : ∀ a, c.heads.getLast? = some a → c.planner.regressed → ∀ r,
    c.planner.next.1 = some r → Lowest r c.planner.released.values ∧ r.last ≤ a
  /-- Nothing is handed out only if every released range ends above the latest head. -/
  withheld : ∀ a, c.heads.getLast? = some a → c.planner.regressed →
    (c.planner.next.1 = none ↔ ∀ r ∈ c.planner.released.values, a < r.last)

/-! ### The heads observed -/

/-- What the planner keeps of the heads observed: the greatest one, and the latest one
if some other is greater. -/
structure Observed (c : Record) : Prop where
  head_eq : c.planner.head = c.heads.max?
  regressedTo_eq : c.planner.regressedTo = c.heads.getLast?.filter fun a => c.heads.any (a < ·)

namespace Observed

variable (h : Observed c)
include h

theorem note_observe (n : ℕ) : Observed (c.note (.observe n)) := by
  have hlatest : (c.heads ++ [n]).getLast? = some n := List.getLast?_concat
  have hhead := h.head_eq
  show Observed { c with planner := (c.planner.observe n).2, heads := c.heads ++ [n] }
  unfold observe
  rcases hknown : c.planner.head with _ | known
  · -- the first head of all
    have hnil : c.heads = [] := List.max?_eq_none_iff.mp (hhead.symm.trans hknown)
    have hnone : ¬ [n].any (n < ·) = true := by simp
    simp only [hnil, List.nil_append]
    exact ⟨rfl, by rw [List.getLast?_singleton, Option.filter_some, if_neg hnone]⟩
  obtain ⟨hmem, hle⟩ := List.max?_eq_some_iff.mp (hhead.symm.trans hknown)
  by_cases hlt : n < known
  · have hmax : (c.heads ++ [n]).max? = some known := by
      refine List.max?_eq_some_iff.mpr ⟨List.mem_append_left _ hmem, fun b hb => ?_⟩
      rcases List.mem_append.mp hb with hb | hb
      · exact hle b hb
      · exact (List.mem_singleton.mp hb).trans_le hlt.le
    have hgreater : (c.heads ++ [n]).any (n < ·) = true :=
      List.any_eq_true.mpr ⟨known, List.mem_append_left _ hmem, decide_eq_true hlt⟩
    simp only [hlt, if_true]
    exact ⟨hmax.symm, by rw [hlatest, Option.filter_some, if_pos hgreater]⟩
  · have hall : ∀ b ∈ c.heads ++ [n], b ≤ n := by
      intro b hb
      rcases List.mem_append.mp hb with hb | hb
      · exact (hle b hb).trans (Nat.le_of_not_lt hlt)
      · exact (List.mem_singleton.mp hb).le
    have hmax : (c.heads ++ [n]).max? = some n :=
      List.max?_eq_some_iff.mpr ⟨List.mem_append_right _ List.mem_cons_self, hall⟩
    have hnone : ¬ (c.heads ++ [n]).any (n < ·) = true := by
      rw [List.any_eq_true]
      rintro ⟨b, hb, hlt⟩
      exact absurd (hall b hb) (Nat.not_le_of_lt (of_decide_eq_true hlt))
    simp only [hlt, if_false]
    exact ⟨hmax.symm, by rw [hlatest, Option.filter_some, if_neg hnone]⟩

/-- **One call keeps what is known of the heads.** -/
theorem note (x : Call) : Observed (c.note x) := by
  cases x with
  | observe n => exact h.note_observe n
  | next =>
    obtain ⟨hhead, hregressed⟩ := sameHead_next c.planner
    exact ⟨hhead.trans h.head_eq, hregressed.trans h.regressedTo_eq⟩
  | release r =>
    obtain ⟨hhead, hregressed⟩ := sameHead_release c.planner r
    exact ⟨hhead.trans h.head_eq, hregressed.trans h.regressedTo_eq⟩
  | complete r =>
    obtain ⟨hhead, hregressed⟩ := sameHead_complete c.planner r
    exact ⟨hhead.trans h.head_eq, hregressed.trans h.regressedTo_eq⟩

theorem regressedTo_of_regressed {a : ℕ} (hlatest : c.heads.getLast? = some a)
    (hregressed : c.planner.regressed) : c.planner.regressedTo = some a := by
  obtain ⟨b, hb⟩ := Option.isSome_iff_exists.mp hregressed
  have hfilter := h.regressedTo_eq
  rw [hb, hlatest] at hfilter
  rw [hb, (Option.filter_eq_some_iff.mp hfilter.symm).1]

theorem regressed_iff : c.planner.regressed ↔
    ∃ a m, c.heads.getLast? = some a ∧ c.heads.max? = some m ∧ a < m := by
  unfold regressed
  rw [h.regressedTo_eq, Option.isSome_iff_exists]
  constructor
  · rintro ⟨a, ha⟩
    obtain ⟨hlatest, hgreater⟩ := Option.filter_eq_some_iff.mp ha
    obtain ⟨b, hb, hlt⟩ := List.any_eq_true.mp hgreater
    obtain ⟨m, hm⟩ := List.isSome_max?_of_mem hb |> Option.isSome_iff_exists.mp
    have hle := (List.max?_eq_some_iff.mp hm).2 b hb
    exact ⟨a, m, hlatest, hm, (of_decide_eq_true hlt).trans_le hle⟩
  · rintro ⟨a, m, hlatest, hm, hlt⟩
    have hmem := (List.max?_eq_some_iff.mp hm).1
    exact ⟨a, Option.filter_eq_some_iff.mpr
      ⟨hlatest, List.any_eq_true.mpr ⟨m, hmem, decide_eq_true hlt⟩⟩⟩

end Observed

theorem observed_foldl (h : Observed c) (calls : List Call) : Observed (calls.foldl note c) := by
  induction calls generalizing c with
  | nil => exact h
  | cons x calls ih => exact ih (h.note x)

/-! ### The lowest released range -/

namespace Tracked

variable (h : Tracked low size c)
include h

/-- The released range with the least key lies below all others: it begins first, and
ends before any other begins. -/
theorem lowest_of_first? {k : ℕ} (hfirst : c.planner.released.first? = some (k, r)) :
    Lowest r c.planner.released.values := by
  have hfind := HeightMap.find?_of_first? hfirst
  have hr : r ∈ c.planner.released.values := HeightMap.mem_values.mpr ⟨k, hfind⟩
  refine ⟨hr, fun s hs hne => ?_⟩
  have hle : r.first ≤ s.first := by
    rw [h.released_key k r hfind]
    exact HeightMap.le_of_first? hfirst (h.mem_released_iff.mp hs)
  -- otherwise they would share the lowest height of the other one
  by_contra hlast
  have hshared : r.Mem s.first := ⟨hle, Nat.le_of_not_lt hlast⟩
  exact hne (h.eq_of_mem (h.issued_of_released hs) (h.issued_of_released hr)
    ⟨le_rfl, s.ordered⟩ hshared)

theorem exists_lowest (hne : c.planner.released.values ≠ []) :
    ∃ k r, c.planner.released.first? = some (k, r) ∧ Lowest r c.planner.released.values := by
  have hsome : c.planner.released.first? ≠ none := mt HeightMap.first?_eq_none_iff.mp hne
  obtain ⟨⟨k, r⟩, hfirst⟩ := Option.ne_none_iff_exists'.mp hsome
  exact ⟨k, r, hfirst, h.lowest_of_first? hfirst⟩

theorem released_of_unobserved (hheads : c.heads = []) : c.planner.released.values = [] := by
  rw [List.eq_nil_iff_forall_not_mem]
  intro r hr
  obtain ⟨n, hn, -⟩ := h.headed r (h.issued_of_released hr)
  rw [hheads] at hn
  cases hn

end Tracked

theorem reissue?_of_released_nil (hnil : c.planner.released.values = []) :
    c.planner.reissue? = none := by
  rw [reissue?_eq, HeightMap.first?_eq_none_iff.mpr hnil]
  rfl

/-- After the head has moved back there is no fresh range. -/
theorem fst_next_of_regressed {a : ℕ} (hregressed : c.planner.regressedTo = some a) :
    c.planner.next.1
      = (c.planner.released.first?.map Prod.snd).filter fun r => r.last ≤ a := by
  have hfresh : c.planner.fresh? = none := by
    unfold fresh?
    simp only [hregressed]
  rw [fst_next, hfresh, Option.or_none, reissue?_eq, hregressed]
  rfl

/-! ### The law -/

/-- **What is known of the ranges and of the heads gives the law.** -/
theorem Tracked.decides (h : Tracked low size c) (ho : Observed c) : Decides size c where
  head_eq := ho.head_eq
  regressed_iff := ho.regressed_iff
  unobserved := by
    intro hheads
    have hfresh : c.planner.fresh? = none := by
      unfold fresh?
      rw [ho.head_eq, hheads]
      split
      · next hhead => cases hhead
      · rfl
    rw [fst_next, reissue?_of_released_nil (h.released_of_unobserved hheads), hfresh]
    rfl
  released := by
    intro hstands hne
    obtain ⟨k, r, hfirst, hlowest⟩ := h.exists_lowest hne
    refine ⟨r, ?_, hlowest⟩
    rw [fst_next, reissue?_eq, hfirst, Option.not_isSome_iff_eq_none.mp hstands]
    rfl
  fresh := by
    intro m hm hstands hnil hcursor
    have htop : m < Height.top := h.heads_lt m (List.max?_eq_some_iff.mp hm).1
    obtain ⟨r, hr, hfirst, hlast⟩ := exists_fresh? (Option.not_isSome_iff_eq_none.mp hstands)
      (ho.head_eq.trans hm) hcursor htop.le
    refine ⟨r, ?_, hfirst, h.maxSize_eq ▸ hlast⟩
    rw [fst_next, reissue?_of_released_nil hnil, hr]
    rfl
  exhausted := by
    intro m hm hstands hnil hcursor
    rw [fst_next, reissue?_of_released_nil hnil, fresh?_eq_none (ho.head_eq.trans hm) hcursor]
    rfl
  served := by
    intro a hlatest hregressed r hr
    rw [fst_next_of_regressed (ho.regressedTo_of_regressed hlatest hregressed),
      Option.filter_eq_some_iff, Option.map_eq_some_iff] at hr
    obtain ⟨⟨⟨k, s⟩, hfirst, rfl⟩, hle⟩ := hr
    exact ⟨h.lowest_of_first? hfirst, of_decide_eq_true hle⟩
  withheld := by
    intro a hlatest hregressed
    rw [fst_next_of_regressed (ho.regressedTo_of_regressed hlatest hregressed)]
    constructor
    · intro hnone s hs
      obtain ⟨k, r, hfirst, hlowest⟩ := h.exists_lowest (List.ne_nil_of_mem hs)
      rw [hfirst, Option.map_some, Option.filter_eq_none_iff] at hnone
      have hlast : a < r.last := Nat.lt_of_not_le fun hle => hnone r rfl (decide_eq_true hle)
      -- what the lowest one leaves out, no other one can reach
      by_cases heq : s = r
      · rwa [heq]
      · have hbelow := hlowest.2 s hs heq
        have hordered := s.ordered
        omega
    · intro hall
      rw [Option.filter_eq_none_iff]
      intro r hr
      obtain ⟨⟨k, s⟩, hfirst, rfl⟩ := Option.map_eq_some_iff.mp hr
      have hlast := hall s (h.lowest_of_first? hfirst).1
      simpa using hlast

end Record

/-- A planner that starts at the top, or above it, starts like one just below: there is
no height left for it. -/
theorem start_eq_start_min (low size : ℕ) (hsize : 0 < size) :
    start low size hsize = start (min low (Height.top - 1)) size hsize := by
  have hcursor : Height.next low = Height.next (min low (Height.top - 1)) := by
    unfold Height.next Height.add Height.top
    omega
  unfold start
  rw [hcursor]

/-- **Which range a planner hands out.**  After any calls, in any order and with any
ranges, a planner that is asked for the next range decides as `Record.Decides` says. -/
theorem decides_after {low size : ℕ} (hsize : 0 < size) {calls : List Call}
    (hcalls : ∀ n, .observe n ∈ calls → n < Height.top) :
    (Record.after (start low size hsize) calls).Decides size := by
  have hlow : min low (Height.top - 1) < Height.top := by
    unfold Height.top
    omega
  have hobserved : Record.Observed ⟨start low size hsize, [], [], [], []⟩ := ⟨rfl, rfl⟩
  have htracked := Record.tracked_foldl (Record.tracked_start hlow hsize) hcalls
  rw [← start_eq_start_min] at htracked
  exact htracked.decides (Record.observed_foldl hobserved calls)

/-- Two ranges are given back, the higher one first, and the head moves back between
their ends.  The lower one is handed out again, and then nothing is, although the
higher one is still released. -/
theorem decides_after_regression :
    let calls : List Call := [.observe 12, .next, .next, .release ⟨5, 8, by decide⟩,
      .release ⟨1, 4, by decide⟩, .observe 6]
    let before := Record.after (start 0 4 (by decide)) calls
    let record := Record.after (start 0 4 (by decide)) (calls ++ [.next])
    (0 < 4 ∧ ∀ n, .observe n ∈ calls ++ [.next] → n < Height.top) ∧
      before.planner.next.1 = some ⟨1, 4, by decide⟩ ∧ record.Decides 4 ∧
      record.planner.regressed ∧ record.planner.next.1 = none ∧
      record.planner.released.values = [⟨5, 8, by decide⟩] := by
  intro calls before record
  have hcalls : ∀ n, .observe n ∈ calls ++ [.next] → n < Height.top := by
    intro n hn
    simp only [calls, List.mem_append, List.mem_cons, Call.observe.injEq, List.not_mem_nil,
      reduceCtorEq, or_false, false_or] at hn
    unfold Height.top
    omega
  exact ⟨⟨by decide, hcalls⟩, by decide, decides_after (by decide) hcalls, by decide, by decide,
    by decide⟩

end Planner
end BlockIngest
