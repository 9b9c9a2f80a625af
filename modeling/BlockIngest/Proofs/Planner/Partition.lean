import BlockIngest.Proofs.Planner.Operations
import Mathlib.Data.List.Nodup
import Mathlib.Data.List.Pairwise

/-!
# The planner partitions the heights

Whatever is asked of a planner, the ranges that it hands out for the first time
follow one another without a gap from its start up to its cursor, and each of
them is at every moment claimed, released or completed, and only one of these.
A record is kept beside the planner, because which ranges were handed out for
the first time and which were completed cannot be read off its state alone.

## Main definitions

* `Planner.Call`, `Planner.answer` — a call, and the planner after it.
* `Planner.Record`, `Planner.Record.after` — a planner with the record of its
  calls.
* `Planner.Record.Partitions` — the law.

## Main results

* `Planner.Record.Tracked.note` — one call keeps the invariant.
* `Planner.Record.tracked_foldl` — so do all calls, one after the other.
* `Planner.partitions_after` — **a planner partitions the heights.**
-/

namespace BlockIngest
namespace Planner

/-- A call to a planner. -/
inductive Call where
  /-- A head was observed. -/
  | observe (head : ℕ)
  /-- A range is asked for. -/
  | next
  /-- A range is given back. -/
  | release (r : ChunkRange)
  /-- A range is done. -/
  | complete (r : ChunkRange)

/-- The planner after a call. -/
def answer (p : Planner) : Call → Planner
  | .observe head => (p.observe head).2
  | .next => p.next.2
  | .release r => (p.release r).2
  | .complete r => (p.complete r).2

/-- A planner with the record of its calls, each list in the order of the calls. -/
structure Record where
  /-- The planner. -/
  planner : Planner
  /-- The heads observed. -/
  heads : List ℕ
  /-- The ranges handed out for the first time. -/
  issued : List ChunkRange
  /-- The ranges given back that were claimed. -/
  returned : List ChunkRange
  /-- The ranges completed that were claimed. -/
  completed : List ChunkRange

namespace Record

/-- The record after one more call.  A range is handed out for the first time if
there is none to be handed out again. -/
def note (c : Record) (x : Call) : Record where
  planner := c.planner.answer x
  heads :=
    match x with
    | .observe head => c.heads ++ [head]
    | _ => c.heads
  issued :=
    match x with
    | .next => if c.planner.reissue?.isSome then c.issued else c.issued ++ c.planner.next.1.toList
    | _ => c.issued
  returned :=
    match x with
    | .release r => if (c.planner.release r).1 then c.returned ++ [r] else c.returned
    | _ => c.returned
  completed :=
    match x with
    | .complete r => if (c.planner.complete r).1 then c.completed ++ [r] else c.completed
    | _ => c.completed

/-- A planner with the record of calls made one after the other. -/
def after (p : Planner) (calls : List Call) : Record := calls.foldl note ⟨p, [], [], [], []⟩

/-- **The law of a planner that starts above `low` with ranges of at most `size`
heights.** -/
structure Partitions (low size : ℕ) (c : Record) : Prop where
  /-- The cursor is above the start. -/
  low_lt_cursor : low < c.planner.cursor
  /-- The ranges handed out for the first time are consecutive, and cover exactly
  the heights from above the start to below the cursor. -/
  covers : c.issued.flatMap ChunkRange.heights
    = List.range' (low + 1) (c.planner.cursor - (low + 1))
  /-- Each holds at least one height and at most `size`, and how many is a number
  of 64 bits. -/
  sized : ∀ r ∈ c.issued, 0 < r.size ∧ r.size ≤ size ∧ r.size ≤ Height.top
  /-- None passes the greatest head observed. -/
  headed : ∀ r ∈ c.issued, ∃ h ∈ c.heads, r.last ≤ h
  /-- No range is handed out for the first time twice. -/
  nodup : c.issued.Nodup
  /-- Each is claimed, released or completed, only one of these and only once, and
  nothing else is. -/
  placed : (c.planner.claimed.values ++ c.planner.released.values ++ c.completed).Perm c.issued
  /-- A range that is handed out is neither claimed nor completed; either it was
  given back as it is, or it is new and begins at the cursor. -/
  grants : ∀ r, c.planner.next.1 = some r →
    r ∉ c.planner.claimed.values ∧ r ∉ c.completed ∧
      (r ∈ c.planner.released.values ∧ r ∈ c.returned ∨
        r ∉ c.issued ∧ r.first = c.planner.cursor)
  /-- No call moves the cursor down. -/
  cursor_le : ∀ x, c.planner.cursor ≤ (c.planner.answer x).cursor
  /-- A claimed range can be given back and completed. -/
  accepts : ∀ r ∈ c.planner.claimed.values,
    (c.planner.release r).1 = true ∧ (c.planner.complete r).1 = true
  /-- Any other range is refused, and nothing changes. -/
  refuses : ∀ r, r ∉ c.planner.claimed.values →
    c.planner.release r = (false, c.planner) ∧ c.planner.complete r = (false, c.planner)

/-! ### The invariant -/

/-- What every call keeps.  Ranges are followed up to order; that the maps are
keyed by the lowest height is what makes a look-up find the range itself. -/
structure Tracked (low size : ℕ) (c : Record) : Prop where
  maxSize_eq : c.planner.maxSize = size
  head_mem : ∀ h, c.planner.head = some h → h ∈ c.heads
  heads_lt : ∀ h ∈ c.heads, h < Height.top
  low_lt_cursor : low < c.planner.cursor
  cursor_le_top : c.planner.cursor ≤ Height.top
  covers : c.issued.flatMap ChunkRange.heights
    = List.range' (low + 1) (c.planner.cursor - (low + 1))
  size_le : ∀ r ∈ c.issued, r.size ≤ size
  headed : ∀ r ∈ c.issued, ∃ h ∈ c.heads, r.last ≤ h
  placed : (c.planner.claimed.values ++ c.planner.released.values ++ c.completed).Perm c.issued
  claimed_key : ∀ k r, c.planner.claimed.find? k = some r → r.first = k
  released_key : ∀ k r, c.planner.released.find? k = some r → r.first = k
  released_returned : ∀ r ∈ c.planner.released.values, r ∈ c.returned

variable {low size : ℕ} {c : Record} {r s : ChunkRange}

theorem released_of_reissue? {p : Planner} (hr : p.reissue? = some r) : r ∈ p.released.values := by
  obtain ⟨⟨k, hfirst⟩, -⟩ := reissue?_eq_some hr
  exact HeightMap.mem_values.mpr ⟨k, HeightMap.find?_of_first? hfirst⟩

namespace Tracked

variable (h : Tracked low size c)

include h

/-- A range handed out lies between the start and the cursor. -/
theorem bounds (hr : r ∈ c.issued) : low < r.first ∧ r.last < c.planner.cursor := by
  have hin : ∀ n, r.Mem n → n ∈ List.range' (low + 1) (c.planner.cursor - (low + 1)) := by
    intro n hn
    rw [← h.covers]
    exact List.mem_flatMap.mpr ⟨r, hr, ChunkRange.mem_heights.mpr hn⟩
  have hfirst := hin r.first ⟨le_rfl, r.ordered⟩
  have hlast := hin r.last ⟨r.ordered, le_rfl⟩
  rw [List.mem_range'_1] at hfirst hlast
  omega

/-- No height lies in two of the ranges handed out. -/
theorem disjoint : c.issued.Pairwise fun r s => List.Disjoint r.heights s.heights := by
  have hnodup : (c.issued.flatMap ChunkRange.heights).Nodup := by
    rw [h.covers]
    exact List.nodup_range'
  exact (List.nodup_flatMap.mp hnodup).2

theorem nodup : c.issued.Nodup := by
  refine h.disjoint.imp fun {r s} hrs heq => ?_
  subst heq
  have hmem : r.first ∈ r.heights := ChunkRange.mem_heights.mpr ⟨le_rfl, r.ordered⟩
  exact hrs hmem hmem

/-- A height tells ranges handed out apart. -/
theorem eq_of_mem {n : ℕ} (hr : r ∈ c.issued) (hs : s ∈ c.issued) (hrn : r.Mem n)
    (hsn : s.Mem n) : r = s := by
  by_contra hne
  have : Std.Symm fun r s : ChunkRange => List.Disjoint r.heights s.heights :=
    ⟨fun _ _ hd _ hs hr => hd hr hs⟩
  exact h.disjoint.forall hr hs hne (ChunkRange.mem_heights.mpr hrn)
    (ChunkRange.mem_heights.mpr hsn)

/-- In particular the lowest one does. -/
theorem eq_of_first_eq (hr : r ∈ c.issued) (hs : s ∈ c.issued) (heq : r.first = s.first) :
    r = s :=
  h.eq_of_mem hr hs ⟨le_rfl, r.ordered⟩ ⟨heq.ge, heq.trans_le s.ordered⟩

theorem issued_of_claimed (hr : r ∈ c.planner.claimed.values) : r ∈ c.issued :=
  h.placed.subset (List.mem_append_left _ (List.mem_append_left _ hr))

theorem issued_of_released (hr : r ∈ c.planner.released.values) : r ∈ c.issued :=
  h.placed.subset (List.mem_append_left _ (List.mem_append_right _ hr))

theorem issued_of_completed (hr : r ∈ c.completed) : r ∈ c.issued :=
  h.placed.subset (List.mem_append_right _ hr)

/-- No range is in two of the three places. -/
theorem separate : List.Disjoint c.planner.claimed.values c.planner.released.values ∧
    List.Disjoint c.planner.claimed.values c.completed ∧
    List.Disjoint c.planner.released.values c.completed := by
  have hnodup := h.placed.nodup_iff.mpr h.nodup
  obtain ⟨hpair, -, hdone⟩ := List.nodup_append'.mp hnodup
  obtain ⟨-, -, hfirst⟩ := List.nodup_append'.mp hpair
  exact ⟨hfirst, fun _ hx => hdone (List.mem_append_left _ hx),
    fun _ hx => hdone (List.mem_append_right _ hx)⟩

theorem mem_claimed_iff :
    r ∈ c.planner.claimed.values ↔ c.planner.claimed.find? r.first = some r := by
  rw [HeightMap.mem_values]
  constructor
  · rintro ⟨k, hk⟩
    rwa [h.claimed_key k r hk]
  · exact fun hr => ⟨r.first, hr⟩

theorem mem_released_iff :
    r ∈ c.planner.released.values ↔ c.planner.released.find? r.first = some r := by
  rw [HeightMap.mem_values]
  constructor
  · rintro ⟨k, hk⟩
    rwa [h.released_key k r hk]
  · exact fun hr => ⟨r.first, hr⟩

/-- The key of a released range is free among the claimed ones. -/
theorem claimed_free_of_released (hr : r ∈ c.planner.released.values) :
    c.planner.claimed.find? r.first = none := by
  by_contra hne
  obtain ⟨s, hs⟩ := Option.ne_none_iff_exists'.mp hne
  have hmem : s ∈ c.planner.claimed.values := HeightMap.mem_values.mpr ⟨_, hs⟩
  have heq : s = r := h.eq_of_first_eq (h.issued_of_claimed hmem) (h.issued_of_released hr)
    (h.claimed_key _ _ hs)
  exact h.separate.1 (heq ▸ hmem) hr

/-- The key of a claimed range is free among the released ones. -/
theorem released_free_of_claimed (hr : r ∈ c.planner.claimed.values) :
    c.planner.released.find? r.first = none := by
  by_contra hne
  obtain ⟨s, hs⟩ := Option.ne_none_iff_exists'.mp hne
  have hmem : s ∈ c.planner.released.values := HeightMap.mem_values.mpr ⟨_, hs⟩
  have heq : s = r := h.eq_of_first_eq (h.issued_of_released hmem) (h.issued_of_claimed hr)
    (h.released_key _ _ hs)
  exact h.separate.1 hr (heq ▸ hmem)

theorem claimed_free_of_cursor : c.planner.claimed.find? c.planner.cursor = none := by
  by_contra hne
  obtain ⟨s, hs⟩ := Option.ne_none_iff_exists'.mp hne
  have hkey := h.claimed_key _ _ hs
  have hlast := (h.bounds (h.issued_of_claimed (HeightMap.mem_values.mpr ⟨_, hs⟩))).2
  have hordered := s.ordered
  omega

/-- A fresh range does not pass the greatest head observed, and lies below the
top. -/
theorem last_le_of_fresh? (hr : c.planner.fresh? = some r) :
    ∃ h ∈ c.heads, r.last ≤ h ∧ r.last < Height.top := by
  obtain ⟨-, -, head, hhead, hlast⟩ := fresh?_eq_some hr
  have hmem := h.head_mem head hhead
  have hlt := h.heads_lt head hmem
  exact ⟨head, hmem, by omega, by omega⟩

theorem not_issued_of_fresh? (hr : c.planner.fresh? = some r) : r ∉ c.issued := by
  intro hmem
  obtain ⟨-, hfirst, -⟩ := fresh?_eq_some hr
  have hlast := (h.bounds hmem).2
  have hordered := r.ordered
  omega

/-! ### One call -/

theorem note_observe {n : ℕ} (hn : n < Height.top) : Tracked low size (c.note (.observe n)) := by
  obtain ⟨hmax, hcursor, hclaimed, hreleased⟩ := sameRanges_observe c.planner n
  have hold : ∀ k ∈ c.heads, k ∈ c.heads ++ [n] := fun k hk => List.mem_append_left _ hk
  constructor
  · exact hmax.trans h.maxSize_eq
  · intro k hk
    rcases head_observe c.planner n with heq | heq
    · exact hold k (h.head_mem k (heq ▸ hk))
    · have hkn : some n = some k := heq.symm.trans hk
      cases hkn
      exact List.mem_append_right _ (List.mem_singleton.mpr rfl)
  · intro k hk
    rcases List.mem_append.mp hk with hk | hk
    · exact h.heads_lt k hk
    · rw [List.mem_singleton.mp hk]
      exact hn
  · exact hcursor ▸ h.low_lt_cursor
  · exact hcursor ▸ h.cursor_le_top
  · exact hcursor ▸ h.covers
  · exact h.size_le
  · intro r hr
    obtain ⟨k, hk, hle⟩ := h.headed r hr
    exact ⟨k, hold k hk, hle⟩
  · exact hclaimed ▸ hreleased ▸ h.placed
  · exact hclaimed ▸ h.claimed_key
  · exact hreleased ▸ h.released_key
  · exact hreleased ▸ h.released_returned

/-- A released range is handed out again: it moves from the released ranges to the
claimed ones. -/
theorem note_reissue (hre : c.planner.reissue? = some r) : Tracked low size (c.note .next) := by
  have hmem : r ∈ c.planner.released.values := released_of_reissue? hre
  have hclaimed := HeightMap.values_insert_perm (v := r) (h.claimed_free_of_released hmem)
  have hreleased := HeightMap.values_erase_perm (h.mem_released_iff.mp hmem)
  have hnote : c.note .next = { c with planner := { c.planner with
      released := c.planner.released.erase r.first
      claimed := c.planner.claimed.insert r.first r } } := by
    unfold note answer
    simp only [next_of_reissue? hre, hre, Option.isSome_some, if_true]
  rw [hnote]
  refine { h with placed := ?_, claimed_key := ?_, released_key := ?_, released_returned := ?_ }
  -- the range changes its place, and all others keep theirs
  · refine List.Perm.trans (List.Perm.append_right _ ?_) h.placed
    calc (c.planner.claimed.insert r.first r).values ++ (c.planner.released.erase r.first).values
      _ |>.Perm (r :: c.planner.claimed.values ++ (c.planner.released.erase r.first).values) :=
          hclaimed.append_right _
      _ |>.Perm (c.planner.claimed.values ++ r :: (c.planner.released.erase r.first).values) :=
          List.perm_middle.symm
      _ |>.Perm (c.planner.claimed.values ++ c.planner.released.values) :=
          hreleased.symm.append_left _
  · intro k s hs
    rcases HeightMap.of_find?_insert hs with ⟨hk, rfl⟩ | ⟨-, hold⟩
    · exact hk
    · exact h.claimed_key k s hold
  · intro k s hs
    exact h.released_key k s (HeightMap.of_find?_erase hs).2
  · intro s hs
    exact h.released_returned s (hreleased.symm.subset (List.mem_cons_of_mem _ hs))

/-- A fresh range is handed out: it is claimed, and the cursor moves above it. -/
theorem note_fresh (hre : c.planner.reissue? = none) (hfr : c.planner.fresh? = some r) :
    Tracked low size (c.note .next) := by
  obtain ⟨-, hfirst, -⟩ := fresh?_eq_some hfr
  obtain ⟨head, hhead, hle, htop⟩ := h.last_le_of_fresh? hfr
  have hordered := r.ordered
  have hlow := h.low_lt_cursor
  have hclaimed := HeightMap.values_insert_perm (v := r) (hfirst ▸ h.claimed_free_of_cursor)
  have hnote : c.note .next = { c with
      planner := { c.planner with
        cursor := r.last + 1, claimed := c.planner.claimed.insert r.first r }
      issued := c.issued ++ [r] } := by
    unfold note answer
    simp only [next_of_fresh? hre hfr, hre, Option.isSome_none, Bool.false_eq_true, if_false,
      Option.toList_some, Height.next_of_lt htop]
  have hsplit : ∀ s ∈ c.issued ++ [r], s ∈ c.issued ∨ s = r := fun s hs =>
    (List.mem_append.mp hs).imp_right List.mem_singleton.mp
  rw [hnote]
  refine { h with low_lt_cursor := ?_, cursor_le_top := ?_, covers := ?_, size_le := ?_,
                  headed := ?_, placed := ?_, claimed_key := ?_ }
  · show low < r.last + 1
    omega
  · show r.last + 1 ≤ Height.top
    omega
  · show (c.issued ++ [r]).flatMap ChunkRange.heights
      = List.range' (low + 1) (r.last + 1 - (low + 1))
    have hstart : c.planner.cursor = low + 1 + (c.planner.cursor - (low + 1)) := by omega
    have hlength : r.last + 1 - (low + 1) = c.planner.cursor - (low + 1) + r.size := by
      unfold ChunkRange.size
      omega
    rw [List.flatMap_append, h.covers, List.flatMap_singleton, ChunkRange.heights, hfirst,
      hlength, ← List.range'_append_1, ← hstart]
  · intro s hs
    rcases hsplit s hs with hs | rfl
    · exact h.size_le s hs
    · rw [← h.maxSize_eq]
      exact size_le_of_fresh? hfr
  · intro s hs
    rcases hsplit s hs with hs | rfl
    · exact h.headed s hs
    · exact ⟨head, hhead, hle⟩
  · refine ((hclaimed.append_right _).append_right _).trans ?_
    exact (h.placed.cons r).trans (List.perm_append_singleton r c.issued).symm
  · intro k s hs
    rcases HeightMap.of_find?_insert hs with ⟨hk, rfl⟩ | ⟨-, hold⟩
    · exact hk
    · exact h.claimed_key k s hold

theorem note_idle (hre : c.planner.reissue? = none) (hfr : c.planner.fresh? = none) :
    Tracked low size (c.note .next) := by
  have hnote : c.note .next = c := by
    unfold note answer
    simp only [next_of_none hre hfr, Option.toList_none, List.append_nil, ite_self]
  rw [hnote]
  exact h

/-- A claimed range is given back: it moves to the released ranges. -/
theorem note_release (hr : c.planner.claimed.find? r.first = some r) :
    Tracked low size (c.note (.release r)) := by
  have hmem := h.mem_claimed_iff.mpr hr
  have hclaimed := HeightMap.values_erase_perm hr
  have hreleased := HeightMap.values_insert_perm (v := r) (h.released_free_of_claimed hmem)
  have hnote : c.note (.release r) = { c with
      planner := { c.planner with
        claimed := c.planner.claimed.erase r.first
        released := c.planner.released.insert r.first r }
      returned := c.returned ++ [r] } := by
    unfold note answer
    simp only [release_claimed hr, if_true]
  rw [hnote]
  refine { h with placed := ?_, claimed_key := ?_, released_key := ?_, released_returned := ?_ }
  · refine List.Perm.trans (List.Perm.append_right _ ?_) h.placed
    calc (c.planner.claimed.erase r.first).values ++ (c.planner.released.insert r.first r).values
      _ |>.Perm ((c.planner.claimed.erase r.first).values ++ r :: c.planner.released.values) :=
          hreleased.append_left _
      _ |>.Perm (r :: (c.planner.claimed.erase r.first).values ++ c.planner.released.values) :=
          List.perm_middle
      _ |>.Perm (c.planner.claimed.values ++ c.planner.released.values) :=
          hclaimed.symm.append_right _
  · intro k s hs
    exact h.claimed_key k s (HeightMap.of_find?_erase hs).2
  · intro k s hs
    rcases HeightMap.of_find?_insert hs with ⟨hk, rfl⟩ | ⟨-, hold⟩
    · exact hk
    · exact h.released_key k s hold
  · intro s hs
    rcases List.mem_cons.mp (hreleased.subset hs) with rfl | hs
    · exact List.mem_append_right _ (List.mem_singleton.mpr rfl)
    · exact List.mem_append_left _ (h.released_returned s hs)

/-- A claimed range is completed: it is done for good. -/
theorem note_complete (hr : c.planner.claimed.find? r.first = some r) :
    Tracked low size (c.note (.complete r)) := by
  have hclaimed := HeightMap.values_erase_perm hr
  have hnote : c.note (.complete r) = { c with
      planner := { c.planner with claimed := c.planner.claimed.erase r.first }
      completed := c.completed ++ [r] } := by
    unfold note answer
    simp only [complete_claimed hr, if_true]
  rw [hnote]
  refine { h with placed := ?_, claimed_key := ?_ }
  · refine List.Perm.trans ?_ h.placed
    rw [← List.append_assoc]
    refine (List.perm_append_singleton r _).trans ?_
    exact (hclaimed.symm.append_right _).append_right _
  · intro k s hs
    exact h.claimed_key k s (HeightMap.of_find?_erase hs).2

/-- A range that is not claimed is neither given back nor completed. -/
theorem note_refused (hr : c.planner.claimed.find? r.first ≠ some r) :
    Tracked low size (c.note (.release r)) ∧ Tracked low size (c.note (.complete r)) := by
  have hrelease : c.note (.release r) = c := by
    unfold note answer
    simp only [release_unclaimed hr, Bool.false_eq_true, if_false]
  have hcomplete : c.note (.complete r) = c := by
    unfold note answer
    simp only [complete_unclaimed hr, Bool.false_eq_true, if_false]
  rw [hrelease, hcomplete]
  exact ⟨h, h⟩

/-- **One call keeps the invariant**, as long as heads stay below the top. -/
theorem note {x : Call} (hx : ∀ n, x = .observe n → n < Height.top) :
    Tracked low size (c.note x) := by
  cases x with
  | observe n => exact h.note_observe (hx n rfl)
  | next =>
    rcases hre : c.planner.reissue? with _ | r
    · rcases hfr : c.planner.fresh? with _ | r
      · exact h.note_idle hre hfr
      · exact h.note_fresh hre hfr
    · exact h.note_reissue hre
  | release r =>
    by_cases hr : c.planner.claimed.find? r.first = some r
    · exact h.note_release hr
    · exact (h.note_refused hr).1
  | complete r =>
    by_cases hr : c.planner.claimed.find? r.first = some r
    · exact h.note_complete hr
    · exact (h.note_refused hr).2

/-- **The invariant gives the law.** -/
theorem partitions : Partitions low size c where
  low_lt_cursor := h.low_lt_cursor
  covers := h.covers
  sized := by
    intro r hr
    have hcursor := h.cursor_le_top
    have hbounds := h.bounds hr
    have hordered := r.ordered
    refine ⟨Nat.succ_pos _, h.size_le r hr, ?_⟩
    unfold ChunkRange.size
    omega
  headed := h.headed
  nodup := h.nodup
  placed := h.placed
  grants := by
    intro r hr
    obtain ⟨-, hdone, hdone'⟩ := h.separate
    rcases reissue?_or_fresh?_of_next hr with hre | ⟨-, hfr⟩
    · have hmem : r ∈ c.planner.released.values := released_of_reissue? hre
      refine ⟨fun hc => h.separate.1 hc hmem, fun hc => hdone' hmem hc, Or.inl ⟨hmem, ?_⟩⟩
      exact h.released_returned r hmem
    · have hnew := h.not_issued_of_fresh? hfr
      refine ⟨fun hc => hnew (h.issued_of_claimed hc), fun hc => hnew (h.issued_of_completed hc),
        Or.inr ⟨hnew, ?_⟩⟩
      exact (fresh?_eq_some hfr).2.1
  cursor_le := by
    intro x
    cases x with
    | observe n => exact (sameRanges_observe c.planner n).2.1.ge
    | next =>
      show c.planner.cursor ≤ c.planner.next.2.cursor
      rcases hre : c.planner.reissue? with _ | r
      · rcases hfr : c.planner.fresh? with _ | r
        · rw [next_of_none hre hfr]
        · obtain ⟨-, -, -, htop⟩ := h.last_le_of_fresh? hfr
          have hfirst := (fresh?_eq_some hfr).2.1
          have hordered := r.ordered
          rw [next_of_fresh? hre hfr]
          show c.planner.cursor ≤ Height.next r.last
          rw [Height.next_of_lt htop]
          omega
      · rw [next_of_reissue? hre]
    | release r =>
      show c.planner.cursor ≤ (c.planner.release r).2.cursor
      by_cases hr : c.planner.claimed.find? r.first = some r
      · rw [release_claimed hr]
      · rw [release_unclaimed hr]
    | complete r =>
      show c.planner.cursor ≤ (c.planner.complete r).2.cursor
      by_cases hr : c.planner.claimed.find? r.first = some r
      · rw [complete_claimed hr]
      · rw [complete_unclaimed hr]
  accepts := by
    intro r hr
    have hclaimed := h.mem_claimed_iff.mp hr
    rw [release_claimed hclaimed, complete_claimed hclaimed]
    exact ⟨rfl, rfl⟩
  refuses := by
    intro r hr
    have hunclaimed : c.planner.claimed.find? r.first ≠ some r :=
      fun hc => hr (h.mem_claimed_iff.mpr hc)
    exact ⟨release_unclaimed hunclaimed, complete_unclaimed hunclaimed⟩

end Tracked

/-! ### All calls -/

/-- A new planner keeps the invariant: it has handed out nothing. -/
theorem tracked_start (hlow : low < Height.top) (hsize : 0 < size) :
    Tracked low size ⟨start low size hsize, [], [], [], []⟩ := by
  have hcursor : (start low size hsize).cursor = low + 1 := Height.next_of_lt hlow
  constructor
  case maxSize_eq => rfl
  case low_lt_cursor => rw [hcursor]; exact Nat.lt_succ_self low
  case cursor_le_top => rw [hcursor]; exact hlow
  case covers => rw [hcursor, Nat.sub_self]; rfl
  case placed => exact List.Perm.nil
  case head_mem => intro k hk; cases hk
  case claimed_key => intro k r hr; cases hr
  case released_key => intro k r hr; cases hr
  all_goals intro x hx; cases hx

/-- **Calls made one after the other keep the invariant**, as long as heads stay
below the top. -/
theorem tracked_foldl (h : Tracked low size c) {calls : List Call}
    (hcalls : ∀ n, .observe n ∈ calls → n < Height.top) :
    Tracked low size (calls.foldl note c) := by
  induction calls generalizing c with
  | nil => exact h
  | cons x calls ih =>
    refine ih (h.note ?_) fun n hn => hcalls n (List.mem_cons_of_mem _ hn)
    rintro n rfl
    exact hcalls n List.mem_cons_self

end Record

/-- **A planner partitions the heights.**  After any calls, in any order and with
any ranges, what a planner has handed out obeys `Record.Partitions`. -/
theorem partitions_after {low size : ℕ} (hlow : low < Height.top) (hsize : 0 < size)
    {calls : List Call} (hcalls : ∀ n, .observe n ∈ calls → n < Height.top) :
    (Record.after (start low size hsize) calls).Partitions low size :=
  (Record.tracked_foldl (Record.tracked_start hlow hsize) hcalls).partitions

/-- A range given back is handed out again while the head has moved back, and then
completed; the other one stays claimed, and nothing fresh is handed out. -/
theorem partitions_after_regression :
    let calls : List Call := [.observe 8, .next, .next, .release ⟨3, 6, by decide⟩, .observe 7,
      .next, .complete ⟨3, 6, by decide⟩, .next]
    let record := Record.after (start 2 4 (by decide)) calls
    (2 < Height.top ∧ 0 < 4 ∧ ∀ n, .observe n ∈ calls → n < Height.top) ∧
      record.Partitions 2 4 ∧ record.issued = [⟨3, 6, by decide⟩, ⟨7, 8, by decide⟩] ∧
      record.completed = [⟨3, 6, by decide⟩] ∧
      record.planner.claimed.values = [⟨7, 8, by decide⟩] := by
  intro calls record
  have hcalls : ∀ n, .observe n ∈ calls → n < Height.top := by
    intro n hn
    simp only [calls, List.mem_cons, Call.observe.injEq, List.not_mem_nil, reduceCtorEq, or_false,
      false_or] at hn
    unfold Height.top
    omega
  exact ⟨⟨by decide, by decide, hcalls⟩, partitions_after (by decide) (by decide) hcalls,
    by decide, by decide, by decide⟩

end Planner
end BlockIngest
