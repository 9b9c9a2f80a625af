import BlockIngest.Proofs.HeightMap
import BlockIngest.Proofs.Pipeline.Chain

/-!
# What a store holds of a chain

The heights of a chain are written one after the other, each from its block on, and
a height may be begun several times before all of its transactions are written.
So a store holds all heights up to some height in full, and perhaps the block above
them with the first of its transactions.  The store itself does not know which
heights are held in full; it counts transactions, and the count is right.

## Main definitions

* `Store.At` — what is stored at a height.
* `Store.Holds` — the heights of a chain up to a height, and what was begun above it.

## Main results

* `Store.at_writes` — what is stored at a height after the first of its writes.
* `Store.Holds.latestHeight_eq` — **the latest height is the last one that is held.**
-/

namespace BlockIngest

namespace HeightMap

variable {α : Type} {l : List α} {v : α} {i n : ℕ}

/-- Writing an element of a list over or behind the first ones. -/
theorem insert_ofList_take (hi : i ≤ n) (hv : l[i]? = some v) :
    (ofList (l.take n)).insert i v = ofList (l.take (max n (i + 1))) := by
  refine eq_ofList fun k => ?_
  rw [find?_insert, find?_ofList, List.getElem?_take, List.getElem?_take]
  by_cases hk : i = k
  · subst hk
    rw [if_pos rfl, if_pos (by omega), hv]
  · rw [if_neg hk]
    by_cases hlt : k < n
    · rw [if_pos hlt, if_pos (by omega)]
    · rw [if_neg hlt, if_neg (by omega)]

end HeightMap

/-- Whether the transactions of a height are numbered as they stand in its block. -/
def FetchedBlock.Numbered (f : FetchedBlock) : Prop :=
  ∀ (i : ℕ) (t : TxResult), f.txs[i]? = some t → t.height = f.height ∧ t.index = i

/-- Whether the numbers of transactions fit the 32 bits in which they are kept.  They do
as long as blocks arrive as answers of a node: no answer is accepted whose length in
bytes does not fit 32 bits, and every transaction takes some of them. -/
def Chain.Numbered (c : Chain) : Prop := ∀ h, (c.block h).txs.length ≤ 0x100000000

theorem Chain.Numbered.of_fetch {c : Chain} {h : ℕ} {f : FetchedBlock} (hc : c.Numbered)
    (hfetch : c.fetch h = .ok f) : f.Numbered := by
  intro i t ht
  have hassembled := Chain.assembled_of_fetch hfetch
  have hnumbers := congrArg (fun ns => ns[i]?) (FetchedBlock.numbers_txs hassembled)
  have hlt : i < f.block.txs.length := by
    rw [← FetchedBlock.length_txs hassembled]
    exact (List.getElem?_eq_some_iff.mp ht).1
  have hword : i % 0x100000000 = i := by
    obtain ⟨-, hassemble⟩ := Chain.assemble_of_fetch hfetch
    have hfew := hc h
    rw [← FetchedBlock.block_of_assemble hassemble] at hfew
    exact Nat.mod_eq_of_lt (by omega)
  simp only [List.getElem?_map, ht, List.getElem?_range hlt, Option.map_some, hword] at hnumbers
  exact Prod.mk.inj (Option.some.inj hnumbers)

namespace Store

variable {s : Store} {h k : ℕ}

/-- What is stored at a height: a block, if there is one, and transactions from the
first one on. -/
def At (s : Store) (h : ℕ) (b : Option Block) (txs : List TxResult) : Prop :=
  s.blocks.find? h = b ∧ s.txMapAt h = .ofList txs

theorem at_empty (h : ℕ) : empty.At h none [] := ⟨rfl, HeightMap.eq_ofList fun _ => rfl⟩

/-! ### Writes -/

theorem txMapAt_putTx (s : Store) (t : TxResult) (h : ℕ) :
    (s.putTx t).txMapAt h
      = if t.height = h then (s.txMapAt h).insert t.index t else s.txMapAt h := by
  unfold txMapAt putTx
  rw [HeightMap.find?_insert]
  split
  · next heq =>
    rw [← heq]
    rfl
  · rfl

theorem at_putBlock {b : Block} {opened : Option Block} {txs : List TxResult}
    (hs : s.At b.height opened txs) : (s.putBlock b).At b.height (some b) txs := by
  refine ⟨?_, hs.2⟩
  unfold putBlock
  rw [HeightMap.find?_insert, if_pos rfl]

/-- A transaction is written over or behind the first ones of its height. -/
theorem at_putTx {opened : Option Block} {txs : List TxResult} {n : ℕ} {t : TxResult}
    (hs : s.At t.height opened (txs.take n)) (hn : t.index ≤ n)
    (ht : txs[t.index]? = some t) :
    (s.putTx t).At t.height opened (txs.take (max n (t.index + 1))) := by
  refine ⟨hs.1, ?_⟩
  rw [txMapAt_putTx, if_pos rfl, hs.2, HeightMap.insert_ofList_take hn ht]

/-- Writes of one height leave all others as they are. -/
theorem at_put_of_ne {w : Write} {b : Option Block} {txs : List TxResult} (hs : s.At h b txs)
    (hne : w.height ≠ h) : (w.put s).At h b txs := by
  cases w with
  | block b =>
    have hne' : b.height ≠ h := hne
    refine ⟨?_, hs.2⟩
    show (s.blocks.insert b.height b).find? h = _
    rw [HeightMap.find?_insert, if_neg hne']
    exact hs.1
  | tx t =>
    have hne' : t.height ≠ h := hne
    refine ⟨hs.1, ?_⟩
    show (s.putTx t).txMapAt h = _
    rw [txMapAt_putTx, if_neg hne']
    exact hs.2

theorem at_write_of_ne {ws : List Write} {b : Option Block} {txs : List TxResult}
    (hs : s.At h b txs) (hne : ∀ w ∈ ws, w.height ≠ h) : (s.write ws).At h b txs := by
  induction ws generalizing s with
  | nil => exact hs
  | cons w ws ih =>
    have hput := at_put_of_ne hs (hne w List.mem_cons_self)
    exact ih hput fun v hv => hne v (List.mem_cons_of_mem w hv)

/-- **What is stored at a height after the first of its writes**: its block, and the
transactions that these or earlier writes have brought. -/
theorem at_writes {f : FetchedBlock} {opened : Option Block} {n i : ℕ} (hf : f.Numbered)
    (hs : s.At f.height opened (f.txs.take n)) (hi : i ≤ f.txs.length) :
    (s.write (.block f.block :: (f.txs.take i).map .tx)).At f.height (some f.block)
      (f.txs.take (max n i)) := by
  -- an earlier attempt may have brought more of the transactions, so it is `max n i`
  induction i with
  | zero =>
    rw [List.take_zero, List.map_nil, Nat.max_zero]
    exact at_putBlock hs
  | succ i ih =>
    have hlt : i < f.txs.length := hi
    have hbefore := ih (Nat.le_of_lt hlt)
    obtain ⟨hheight, hindex⟩ := hf i f.txs[i] (List.getElem?_eq_getElem hlt)
    have hmax : max (max n i) (i + 1) = max n (i + 1) := by omega
    have hsplit : (f.txs.take (i + 1)).map Write.tx
        = (f.txs.take i).map .tx ++ [.tx f.txs[i]] := by
      rw [List.take_succ_eq_append_getElem hlt, List.map_append]
      rfl
    rw [hsplit, ← List.cons_append, write_append]
    rw [← hheight] at hbefore ⊢
    have hput := at_putTx hbefore (by rw [hindex]; exact Nat.le_max_right n i)
      (by rw [hindex]; exact List.getElem?_eq_getElem hlt)
    rw [hindex, hmax] at hput
    exact hput

/-! ### A chain in a store -/

/-- Whether a store holds the heights from one to `k` as the chain has them, and no
height but the one above them besides. -/
structure Settled (c : Chain) (k : ℕ) (s : Store) : Prop where
  /-- The heights up to `k` are complete. -/
  complete : ∀ h, 1 ≤ h → h ≤ k → ∃ f, c.fetch h = .ok f ∧ s.At h (some f.block) f.txs
  /-- No other height is there, apart from the next one. -/
  absent : ∀ h, h = 0 ∨ k + 1 < h → s.At h none []

/-- Whether a store holds the heights of a chain up to `k`, and of the next one
nothing, or its block and some of its transactions from the first one on, but not
all of them. -/
structure Holds (c : Chain) (k : ℕ) (s : Store) : Prop extends Settled c k s where
  /-- What there is of the next height. -/
  begun : s.At (k + 1) none [] ∨ ∃ f n, c.fetch (k + 1) = .ok f ∧ n < f.txs.length ∧
    s.At (k + 1) (some f.block) (f.txs.take n)

variable {c : Chain}

theorem holds_empty (c : Chain) : empty.Holds c 0 where
  complete := by
    intro h hlow hhigh
    omega
  absent h _ := at_empty h
  begun := Or.inl (at_empty 1)

/-- Writes of the next height leave what is settled as it is. -/
theorem Settled.write {ws : List Write} (hs : s.Settled c k) (hws : ∀ w ∈ ws, w.height = k + 1) :
    (s.write ws).Settled c k := by
  have hne : ∀ h, h ≠ k + 1 → ∀ w ∈ ws, w.height ≠ h := by
    intro h hh w hw heq
    exact hh (heq.symm.trans (hws w hw))
  constructor
  · intro h hlow hhigh
    obtain ⟨f, hfetch, hat⟩ := hs.complete h hlow hhigh
    exact ⟨f, hfetch, at_write_of_ne hat (hne h (by omega))⟩
  · intro h hh
    exact at_write_of_ne (hs.absent h hh) (hne h (by omega))

/-- A height counts as complete if all its transactions are there. -/
theorem isComplete_iff {f : FetchedBlock} {n : ℕ} (hfetch : c.fetch h = .ok f)
    (hs : s.At h (some f.block) (f.txs.take n)) : s.isComplete f.block ↔ f.txs.length ≤ n := by
  have hheight : f.block.height = h := Chain.height_of_fetch hfetch
  have hlength := FetchedBlock.length_txs (Chain.assembled_of_fetch hfetch)
  unfold isComplete
  rw [hheight, hs.2, HeightMap.size_ofList, List.length_take, beq_iff_eq, hlength]
  omega

namespace Holds

/-- Only heights that are held in full count as complete. -/
theorem le_of_isComplete {b : Block} (hs : s.Holds c k) (hb : s.blocks.find? h = some b)
    (hcomplete : s.isComplete b) : 1 ≤ h ∧ h ≤ k := by
  by_contra hout
  -- the next height may have its block, but then it lacks a transaction
  by_cases hnext : h = k + 1
  · subst hnext
    rcases hs.begun with hnone | ⟨f, n, hfetch, hn, hat⟩
    · rw [hnone.1] at hb
      cases hb
    · rw [hat.1] at hb
      cases hb
      have hle := (isComplete_iff hfetch hat).mp hcomplete
      omega
  · rw [(hs.absent h (by omega)).1] at hb
    cases hb

/-- **The latest height is the last one that is held.** -/
theorem latestHeight_eq (hs : s.Holds c k) :
    s.latestHeight = if k = 0 then none else some k := by
  unfold latestHeight
  split
  · next hk =>
    rw [HeightMap.find?_reverse_values_eq_none]
    · rfl
    · intro h b hb hcomplete
      have hle := hs.le_of_isComplete hb hcomplete
      omega
  · next hk =>
    obtain ⟨f, hfetch, hat⟩ := hs.complete k (by omega) le_rfl
    have hheight : f.block.height = k := Chain.height_of_fetch hfetch
    have hcomplete : s.isComplete f.block :=
      (isComplete_iff hfetch (List.take_length ▸ hat)).mpr le_rfl
    rw [HeightMap.find?_reverse_values hat.1 hcomplete fun h b hb hb' =>
      (hs.le_of_isComplete hb hb').2, Option.map_some, hheight]

end Holds
end Store
end BlockIngest
