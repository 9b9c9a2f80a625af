import BlockIngest.Proofs.Store.Lookup
import Mathlib.Order.Bounds.Basic

/-!
# Which heights count as complete

A store compares how many transactions it has of a height with how many its block has,
whatever their positions.  The numbers agree if and only if as many positions of the block
are empty as are taken beyond it.  A block that is written over another one with more
transactions leaves some of these beyond it: then a height that is stored in full may not
count, and one that is not may.  Where nothing lies beyond its block, the count is right.

## Main definitions

* `Store.Whole` — a height is stored in full.
* `Store.Balanced` — as many positions of its block are empty as are taken beyond it.
* `Store.Fits` — nothing is stored beyond the block of its height.
* `Store.Reports` — the latest height is the greatest one of a kind.

## Main results

* `Store.latestHeight_writes_eq_none` — a height with more transactions than there are numbers
  for them is not reported.
* `Store.reports_balanced` — the latest height is the greatest one that is balanced.
* `Store.reports_write` — **where nothing lies beyond its block, it is the greatest one that
  is stored in full.**
-/

namespace BlockIngest
namespace Store

variable {s : Store} {h : ℕ} {b : Block}

/-- Whether a height is stored in full: its block, and a transaction at each position of it. -/
def Whole (s : Store) (h : ℕ) : Prop :=
  ∃ b, s.block? h = some b ∧ ∀ i < b.txs.length, (s.tx? h i).isSome

/-- Whether as many positions of the block of a height are empty as are taken beyond it. -/
def Balanced (s : Store) (h : ℕ) : Prop :=
  ∃ b, s.block? h = some b ∧
    ((s.txMapAt h).gaps b.txs.length).length = ((s.txMapAt h).surplus b.txs.length).length

/-- Whether nothing is stored beyond the block of its height. -/
def Fits (s : Store) : Prop :=
  ∀ h b, s.block? h = some b → ∀ i, (s.tx? h i).isSome → i < b.txs.length

/-- Whether the latest height is the greatest one of a kind, and there is none if there is no
height of that kind. -/
def Reports (s : Store) (p : ℕ → Prop) : Prop :=
  (∀ h, s.latestHeight = some h ↔ IsGreatest {k | p k} h) ∧ (s.latestHeight = none ↔ ∀ h, ¬ p h)

theorem Reports.congr {p q : ℕ → Prop} (hs : s.Reports p) (hpq : ∀ h, p h ↔ q h) :
    s.Reports q := by
  have heq : p = q := funext fun h => propext (hpq h)
  exact heq ▸ hs

/-! ### The count -/

/-- Blocks that count are those whose gaps are made up for by what lies beyond them. -/
theorem isComplete_iff_length_gaps (s : Store) (b : Block) :
    s.isComplete b ↔ ((s.txMapAt b.height).gaps b.txs.length).length
      = ((s.txMapAt b.height).surplus b.txs.length).length := by
  have hcount := (s.txMapAt b.height).size_add_length_gaps b.txs.length
  unfold isComplete
  rw [beq_iff_eq]
  omega

/-- **With fewer numbers for transactions than a block has, the block never counts as
complete**, whatever is written. -/
theorem not_isComplete_of_numbers {ws : List Write} {n : ℕ}
    (hws : ∀ t, .tx t ∈ ws → t.index < n) (hn : n < b.txs.length) :
    ¬ (empty.write ws).isComplete b := by
  have hkeys : ∀ i ∈ ((empty.write ws).txMapAt b.height).keys, i < n := by
    intro i hi
    obtain ⟨t, ht⟩ := Option.isSome_iff_exists.mp (HeightMap.mem_keys.mp hi)
    have hlast : lastWritten (TxResult.isAt b.height i) ws = some t := (tx?_write ws).symm.trans ht
    obtain ⟨hmem, hat⟩ := of_lastWritten hlast
    simp only [TxResult.isAt, Bool.and_eq_true, beq_iff_eq] at hat
    exact hat.2 ▸ hws t hmem
  -- nothing lies beyond the block, and the first position without a number is empty
  have hsurplus : ((empty.write ws).txMapAt b.height).surplus b.txs.length = [] := by
    refine List.filter_eq_nil_iff.mpr fun i hi => ?_
    have hlt := hkeys i hi
    simp only [decide_eq_true_eq]
    omega
  have hgap : n ∈ ((empty.write ws).txMapAt b.height).gaps b.txs.length := by
    refine List.mem_filter.mpr ⟨List.mem_range.mpr hn, ?_⟩
    rw [← Option.not_isSome, Bool.not_eq_true', ← Bool.not_eq_true, ← HeightMap.mem_keys]
    exact fun hn => lt_irrefl n (hkeys n hn)
  rw [isComplete_iff_length_gaps, hsurplus, List.length_nil]
  exact (List.length_pos_of_mem hgap).ne'

/-- The latest height is the greatest one whose block counts as complete. -/
theorem Keyed.reports (hs : s.Keyed) :
    s.Reports fun h => ∃ b, s.block? h = some b ∧ s.isComplete b := by
  have hsome : ∀ h, s.latestHeight = some h →
      IsGreatest {k | ∃ b, s.block? k = some b ∧ s.isComplete b} h := by
    intro h hlatest
    obtain ⟨b, hb, rfl⟩ := Option.map_eq_some_iff.mp hlatest
    obtain ⟨k, hk, hcomplete, hmax⟩ := HeightMap.of_find?_reverse_values hb
    rw [hs.height_block k b hk]
    refine ⟨⟨b, hk, hcomplete⟩, ?_⟩
    rintro j ⟨c, hc, hcomplete'⟩
    exact hmax j c hc hcomplete'
  have hnone : (∀ h, ¬ ∃ b, s.block? h = some b ∧ s.isComplete b) → s.latestHeight = none := by
    intro hall
    unfold latestHeight
    rw [HeightMap.find?_reverse_values_eq_none fun j c hc hcomplete => hall j ⟨c, hc, hcomplete⟩]
    rfl
  refine ⟨fun h => ⟨hsome h, fun hgreatest => ?_⟩, fun hlatest h hh => ?_, hnone⟩
  · obtain ⟨b, hb, hcomplete⟩ := hgreatest.1
    unfold latestHeight
    rw [HeightMap.find?_reverse_values hb hcomplete fun j c hc hcomplete' =>
      hgreatest.2 ⟨c, hc, hcomplete'⟩, Option.map_some, hs.height_block h b hb]
  · obtain ⟨b, hb, hcomplete⟩ := hh
    have hfound := Option.map_eq_none_iff.mp hlatest
    have hmem : b ∈ s.blocks.values.reverse :=
      List.mem_reverse.mpr (HeightMap.mem_values.mpr ⟨h, hb⟩)
    exact List.find?_eq_none.mp hfound b hmem hcomplete

/-- Blocks that are stored were written. -/
theorem mem_of_block? {ws : List Write} (hb : (empty.write ws).block? h = some b) :
    .block b ∈ ws := by
  induction ws using List.reverseRecOn with
  | nil => cases hb
  | append_singleton ws w ih =>
    rw [write_append] at hb
    rw [List.mem_append, List.mem_singleton]
    cases w with
    | block d =>
      rcases HeightMap.of_find?_insert hb with ⟨-, rfl⟩ | ⟨-, hbefore⟩
      · exact Or.inr rfl
      · exact Or.inl (ih hbefore)
    | tx t => exact Or.inl (ih hb)

/-- **A height with more transactions than there are numbers of 32 bits is not reported**, even
when all of it was written. -/
theorem latestHeight_writes_eq_none {f : FetchedBlock} (hf : f.Assembled)
    (hlong : 0x100000000 < f.block.txs.length) : (empty.write f.writes).latestHeight = none := by
  refine (keyed_write f.writes).reports.2.mpr ?_
  rintro h ⟨b, hb, hcomplete⟩
  have hnumbers : ∀ t, .tx t ∈ f.writes → t.index < 0x100000000 :=
    fun t ht => FetchedBlock.index_lt hf (FetchedBlock.tx_mem_writes.mp ht)
  obtain rfl := FetchedBlock.block_mem_writes.mp (mem_of_block? hb)
  exact not_isComplete_of_numbers hnumbers hlong hcomplete

/-! ### What the count means -/

/-- The latest height is the greatest one that is balanced. -/
theorem reports_balanced (ws : List Write) :
    (empty.write ws).Reports (empty.write ws).Balanced := by
  have hkeyed := keyed_write ws
  refine hkeyed.reports.congr fun h => exists_congr fun b => and_congr_right fun hb => ?_
  rw [isComplete_iff_length_gaps, hkeyed.height_block h b hb]

/-- A height without anything beyond its block is balanced if it has no gaps. -/
theorem Fits.balanced_iff (hs : s.Fits) (h : ℕ) : s.Balanced h ↔ s.Whole h := by
  refine exists_congr fun b => and_congr_right fun hb => ?_
  have hsurplus : (s.txMapAt h).surplus b.txs.length = [] := by
    refine List.filter_eq_nil_iff.mpr fun i hi => ?_
    have hlt := hs h b hb i (HeightMap.mem_keys.mp hi)
    simpa using hlt
  rw [hsurplus, List.length_nil, List.length_eq_zero_iff, HeightMap.gaps, List.filter_eq_nil_iff]
  refine forall_congr' fun i => ?_
  rw [List.mem_range, Bool.not_eq_true, Option.isNone_eq_false_iff]
  rfl

/-- **The latest height is the greatest one that is balanced, and where nothing lies beyond its
block, the greatest one that is stored in full**; and none if there is none. -/
theorem reports_write (ws : List Write) :
    (empty.write ws).Reports (empty.write ws).Balanced ∧
      ((empty.write ws).Fits → (empty.write ws).Reports (empty.write ws).Whole) := by
  have hbalanced := reports_balanced ws
  exact ⟨hbalanced, fun hfits => hbalanced.congr hfits.balanced_iff⟩

/-- A block with so many empty transactions. -/
def plainBlock (height count : ℕ) : Block := ⟨height, "", "", "", List.replicate count [], .null⟩

/-- A transaction without anything in it. -/
def plainTx (height index : ℕ) : TxResult := ⟨height, index, "", [], .null⟩

/-- A height that was stored in full is written again with a longer block, and counts no more. -/
theorem reports_write_longer :
    let ws : List Write := [.block (plainBlock 1 1), .tx (plainTx 1 0), .block (plainBlock 2 1),
      .tx (plainTx 2 0), .block (plainBlock 2 2)]
    (empty.write ws).Fits ∧ (empty.write ws).latestHeight = some 1 ∧
      IsGreatest {k | (empty.write ws).Whole k} 1 := by
  intro ws
  have hblocks : (empty.write ws).blocks.entries = [(1, plainBlock 1 1), (2, plainBlock 2 2)] := rfl
  have hfits : (empty.write ws).Fits := by
    intro h b hb i hi
    have hmem := HeightMap.find?_eq_some_iff.mp hb
    have hkey := HeightMap.mem_keys.mpr hi
    rw [hblocks] at hmem
    simp only [List.mem_cons, Prod.mk.injEq, List.not_mem_nil, or_false] at hmem
    rcases hmem with ⟨rfl, rfl⟩ | ⟨rfl, rfl⟩
    · have hkeys : ((empty.write ws).txMapAt 1).keys = [0] := rfl
      rw [hkeys, List.mem_singleton] at hkey
      subst hkey
      decide
    · have hkeys : ((empty.write ws).txMapAt 2).keys = [0] := rfl
      rw [hkeys, List.mem_singleton] at hkey
      subst hkey
      decide
  have hlatest : (empty.write ws).latestHeight = some 1 := rfl
  exact ⟨hfits, hlatest, (((reports_write ws).2 hfits).1 1).mp hlatest⟩

/-- A transaction beyond its block makes up for one that is missing, and the height counts
although it is not stored in full.  A height that is written again with a shorter block is
stored in full, and does not count. -/
theorem reports_write_surplus :
    let ws : List Write := [.block (plainBlock 1 0), .block (plainBlock 2 2), .tx (plainTx 2 0),
      .tx (plainTx 2 5)]
    let vs : List Write := [.block (plainBlock 1 2), .tx (plainTx 1 0), .tx (plainTx 1 1),
      .block (plainBlock 1 1)]
    ((empty.write ws).latestHeight = some 2 ∧ (empty.write ws).Whole 1 ∧
        ¬ (empty.write ws).Whole 2 ∧ ¬ (empty.write ws).Reports (empty.write ws).Whole) ∧
      (empty.write vs).latestHeight = none ∧ (empty.write vs).Whole 1 ∧
        ¬ (empty.write vs).Reports (empty.write vs).Whole := by
  intro ws vs
  have hpart : ¬ (empty.write ws).Whole 2 := by
    rintro ⟨b, hb, hall⟩
    cases hb
    exact absurd (hall 1 (by decide)) (by decide)
  have hwhole : (empty.write vs).Whole 1 := by
    refine ⟨plainBlock 1 1, rfl, fun i hi => ?_⟩
    obtain rfl : i = 0 := Nat.lt_one_iff.mp hi
    rfl
  refine ⟨⟨rfl, ⟨plainBlock 1 0, rfl, fun i hi => absurd hi (Nat.not_lt_zero i)⟩, hpart,
    fun hreports => ?_⟩, rfl, hwhole, fun hreports => ?_⟩
  · exact hpart ((hreports.1 2).mp rfl).1
  · exact hreports.2.mp rfl 1 hwhole

end Store
end BlockIngest
