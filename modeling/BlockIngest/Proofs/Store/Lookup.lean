import BlockIngest.Proofs.Store.Contents
import Mathlib.Data.List.Induction

/-!
# Finding a transaction by its name

A store keeps, for each name, the position at which a transaction of that name was
written last.  A position may be written again with a transaction of another name, and
what was kept for the old name stays as it is: it leads to the new transaction.  So an
answer is right for a name if and only if the position kept for it has not been taken
over.

## Main definitions

* `lastWritten` — the last transaction of a kind among writes.
* `Store.Keyed` — records stand where they say.
* `Store.Finds` — what is found under a name is what is stored under it.

## Main results

* `Store.tx?_write`, `Store.txByHash?_write` — what is stored at a position, and what is found
  under a name, by the writes.
* `Store.finds_iff` — **a name is answered for rightly if and only if the position at which
  it was written last still holds it.**
-/

namespace BlockIngest

/-- The transaction that a write brings, if it brings one. -/
def Write.tx? : Write → Option TxResult
  | .block _ => none
  | .tx t => some t

/-- The last transaction of a kind among writes. -/
def lastWritten (p : TxResult → Bool) (ws : List Write) : Option TxResult :=
  (ws.filterMap Write.tx?).reverse.find? p

section lastWritten

variable {p : TxResult → Bool} {ws : List Write}

@[simp] theorem lastWritten_append_block {b : Block} :
    lastWritten p (ws ++ [.block b]) = lastWritten p ws := by
  simp [lastWritten, List.filterMap_cons, Write.tx?]

theorem lastWritten_append_tx {t : TxResult} :
    lastWritten p (ws ++ [.tx t]) = if p t then some t else lastWritten p ws := by
  by_cases ht : p t <;> simp [lastWritten, Write.tx?, ht]

theorem of_lastWritten {t : TxResult} (h : lastWritten p ws = some t) : .tx t ∈ ws ∧ p t := by
  obtain ⟨w, hw, hwt⟩ := List.mem_filterMap.mp (List.mem_reverse.mp (List.mem_of_find?_eq_some h))
  refine ⟨?_, List.find?_some h⟩
  cases w with
  | block b => cases hwt
  | tx u =>
    cases hwt
    exact hw

theorem lastWritten_eq_none_iff : lastWritten p ws = none ↔ ∀ t, .tx t ∈ ws → ¬ p t := by
  simp only [lastWritten, List.find?_eq_none, List.mem_reverse, List.mem_filterMap]
  constructor
  · intro h t ht
    exact h t ⟨.tx t, ht, rfl⟩
  · rintro h t ⟨w, hw, hwt⟩
    cases w with
    | block b => cases hwt
    | tx u =>
      cases hwt
      exact h _ hw

end lastWritten

/-- Whether a transaction belongs at a position. -/
def TxResult.isAt (height index : ℕ) (t : TxResult) : Bool := t.height == height && t.index == index

/-- Whether a transaction has a name. -/
def TxResult.isNamed (x : String) (t : TxResult) : Bool := t.hash == x

namespace Store

variable {s : Store} {ws : List Write} {h i : ℕ} {x : String}

/-! ### What is stored at a position -/

theorem tx?_putTx (s : Store) (t : TxResult) :
    (s.putTx t).tx? h i = if t.isAt h i then some t else s.tx? h i := by
  unfold tx? TxResult.isAt
  rw [txMapAt_putTx]
  by_cases hheight : t.height = h
  · rw [if_pos hheight, HeightMap.find?_insert]
    simp [hheight]
  · rw [if_neg hheight]
    simp [hheight]

/-- **At a position is what was written there last.** -/
theorem tx?_write (ws : List Write) :
    (empty.write ws).tx? h i = lastWritten (TxResult.isAt h i) ws := by
  induction ws using List.reverseRecOn with
  | nil => rfl
  | append_singleton ws w ih =>
    rw [write_append]
    cases w with
    | block b =>
      rw [lastWritten_append_block, ← ih]
      rfl
    | tx t =>
      rw [lastWritten_append_tx, ← ih]
      exact tx?_putTx _ t

/-- Whether each record stands at the height, and each transaction at the position, that it
says. -/
structure Keyed (s : Store) : Prop where
  /-- Blocks do. -/
  height_block : ∀ h b, s.block? h = some b → b.height = h
  /-- Transactions do. -/
  isAt_tx : ∀ h i t, s.tx? h i = some t → t.isAt h i

theorem keyed_write (ws : List Write) : (empty.write ws).Keyed where
  height_block := by
    induction ws using List.reverseRecOn with
    | nil =>
      intro h b hb
      cases hb
    | append_singleton ws w ih =>
      intro h b hb
      rw [write_append] at hb
      cases w with
      | block c =>
        rcases HeightMap.of_find?_insert hb with ⟨hheight, rfl⟩ | ⟨-, hbefore⟩
        · exact hheight
        · exact ih h b hbefore
      | tx t => exact ih h b hb
  isAt_tx := by
    intro h i t ht
    rw [tx?_write] at ht
    exact (of_lastWritten ht).2

theorem Keyed.tx?_self (hs : s.Keyed) {t : TxResult} (ht : s.tx? h i = some t) :
    s.tx? t.height t.index = some t := by
  have hat := hs.isAt_tx h i t ht
  simp only [TxResult.isAt, Bool.and_eq_true, beq_iff_eq] at hat
  rw [hat.1, hat.2]
  exact ht

/-! ### What is found under a name -/

theorem find?_index_write (ws : List Write) :
    (empty.write ws).index.find? (fun e => e.1 == x)
      = (lastWritten (TxResult.isNamed x) ws).map fun t => (t.hash, t.height, t.index) := by
  induction ws using List.reverseRecOn with
  | nil => rfl
  | append_singleton ws w ih =>
    rw [write_append]
    cases w with
    | block b =>
      rw [lastWritten_append_block, ← ih]
      rfl
    | tx t =>
      rw [lastWritten_append_tx]
      show ((t.hash, t.height, t.index) :: (empty.write ws).index).find? _ = _
      by_cases ht : t.hash = x
      · simp [TxResult.isNamed, ht]
      · simp [TxResult.isNamed, ht, ih]

/-- **Under a name is found what stands now where that name was written last.** -/
theorem txByHash?_write (ws : List Write) (x : String) :
    (empty.write ws).txByHash? x = (lastWritten (TxResult.isNamed x) ws).bind fun t =>
      (empty.write ws).tx? t.height t.index := by
  unfold txByHash?
  rw [find?_index_write]
  cases lastWritten (TxResult.isNamed x) ws <;> rfl

/-- Something stands where a transaction was written. -/
theorem isSome_tx?_of_mem {t : TxResult} (ht : .tx t ∈ ws) :
    ((empty.write ws).tx? t.height t.index).isSome := by
  rw [tx?_write, Option.isSome_iff_ne_none]
  intro hnone
  exact lastWritten_eq_none_iff.mp hnone t ht (by simp [TxResult.isAt])

/-- What is found is stored. -/
theorem stored_of_txByHash? {t : TxResult} (ht : (empty.write ws).txByHash? x = some t) :
    (empty.write ws).tx? t.height t.index = some t := by
  rw [txByHash?_write] at ht
  obtain ⟨u, -, hu⟩ := Option.bind_eq_some_iff.mp ht
  exact (keyed_write ws).tx?_self hu

/-- Under a name that was written something is found. -/
theorem txByHash?_of_lastWritten {u : TxResult}
    (hu : lastWritten (TxResult.isNamed x) ws = some u) :
    ∃ t, (empty.write ws).tx? u.height u.index = some t ∧
      (empty.write ws).txByHash? x = some t := by
  obtain ⟨t, ht⟩ := Option.isSome_iff_exists.mp (isSome_tx?_of_mem (of_lastWritten hu).1)
  refine ⟨t, ht, ?_⟩
  rw [txByHash?_write, hu]
  exact ht

/-- A name under which something is stored was written. -/
theorem lastWritten_of_stored {t : TxResult} (ht : (empty.write ws).tx? h i = some t)
    (hx : t.hash = x) : ∃ u, lastWritten (TxResult.isNamed x) ws = some u := by
  rw [tx?_write] at ht
  refine Option.ne_none_iff_exists'.mp fun hnone => ?_
  exact lastWritten_eq_none_iff.mp hnone t (of_lastWritten ht).1 (by simp [TxResult.isNamed, hx])

/-- A name that is stored is never missed. -/
theorem isSome_txByHash? {t : TxResult} (ht : (empty.write ws).tx? h i = some t)
    (hx : t.hash = x) : ((empty.write ws).txByHash? x).isSome := by
  obtain ⟨u, hu⟩ := lastWritten_of_stored ht hx
  obtain ⟨v, -, hv⟩ := txByHash?_of_lastWritten hu
  exact Option.isSome_iff_exists.mpr ⟨v, hv⟩

/-! ### When the answer is right -/

/-- Whether what is found under a name is what is stored under it. -/
structure Finds (s : Store) (x : String) : Prop where
  /-- Something is found if and only if a transaction of that name is stored. -/
  isSome_iff : (s.txByHash? x).isSome ↔ ∃ h i t, s.tx? h i = some t ∧ t.hash = x
  /-- What is found is stored and has that name. -/
  stored : ∀ t, s.txByHash? x = some t → s.tx? t.height t.index = some t ∧ t.hash = x

/-- Whether the position at which a name was written last, if it was, still holds it. -/
def Kept (ws : List Write) (x : String) : Prop :=
  ∀ u, lastWritten (TxResult.isNamed x) ws = some u →
    ∃ t, (empty.write ws).tx? u.height u.index = some t ∧ t.hash = x

/-- What is found under a name that is kept has that name. -/
theorem Kept.hash_eq {t : TxResult} (hkept : Kept ws x)
    (ht : (empty.write ws).txByHash? x = some t) : t.hash = x := by
  rw [txByHash?_write] at ht
  obtain ⟨u, hu, htu⟩ := Option.bind_eq_some_iff.mp ht
  obtain ⟨v, hv, hx⟩ := hkept u hu
  have heq : v = t := Option.some.inj (hv.symm.trans htu)
  rw [← heq]
  exact hx

theorem Kept.finds (hkept : Kept ws x) : (empty.write ws).Finds x where
  isSome_iff := by
    constructor
    · intro hsome
      obtain ⟨t, ht⟩ := Option.isSome_iff_exists.mp hsome
      exact ⟨t.height, t.index, t, stored_of_txByHash? ht, hkept.hash_eq ht⟩
    · rintro ⟨h, i, t, ht, hx⟩
      exact isSome_txByHash? ht hx
  stored _ ht := ⟨stored_of_txByHash? ht, hkept.hash_eq ht⟩

theorem Finds.kept (hfinds : (empty.write ws).Finds x) : Kept ws x := by
  intro u hu
  -- what stands where the name was written last is also what is found
  obtain ⟨t, ht, hanswer⟩ := txByHash?_of_lastWritten hu
  exact ⟨t, ht, (hfinds.stored t hanswer).2⟩

/-- **A name is answered for rightly if and only if the position at which it was written
last still holds it.**  In any case a name that is stored is not missed, and what is found
is stored. -/
theorem finds_iff (ws : List Write) (x : String) :
    ((empty.write ws).Finds x ↔ Kept ws x) ∧
      ((∃ h i t, (empty.write ws).tx? h i = some t ∧ t.hash = x) →
        ((empty.write ws).txByHash? x).isSome) ∧
      ∀ t, (empty.write ws).txByHash? x = some t →
        (empty.write ws).tx? t.height t.index = some t := by
  refine ⟨⟨Finds.kept, Kept.finds⟩, ?_, fun t => stored_of_txByHash?⟩
  rintro ⟨h, i, t, ht, hx⟩
  exact isSome_txByHash? ht hx

/-- A name is written at one position and then at another, and the first one is taken over by
another name.  Both are found where they stand. -/
theorem finds_iff_moved :
    let t (height : ℕ) (hash : String) : TxResult := ⟨height, 0, hash, [], .null⟩
    let ws : List Write := [.tx (t 1 "a"), .tx (t 2 "a"), .tx (t 1 "b")]
    (empty.write ws).Finds "a" ∧ (empty.write ws).txByHash? "a" = some (t 2 "a") ∧
      (empty.write ws).Finds "b" ∧ (empty.write ws).txByHash? "b" = some (t 1 "b") := by
  intro t ws
  refine ⟨(finds_iff ws "a").1.mpr fun u hu => ?_, rfl, (finds_iff ws "b").1.mpr fun u hu => ?_,
    rfl⟩
  · cases hu
    exact ⟨_, rfl, rfl⟩
  · cases hu
    exact ⟨_, rfl, rfl⟩

/-- A position is taken over by another name, and the old name, of which nothing is stored now,
leads to the new transaction.  So it does as well if the old name is still stored elsewhere. -/
theorem finds_iff_taken :
    let t (height : ℕ) (hash : String) : TxResult := ⟨height, 0, hash, [], .null⟩
    let ws : List Write := [.tx (t 1 "a"), .tx (t 1 "b")]
    let vs : List Write := [.tx (t 1 "a"), .tx (t 2 "a"), .tx (t 2 "b")]
    (¬ (empty.write ws).Finds "a" ∧ (empty.write ws).txByHash? "a" = some (t 1 "b") ∧
      ∀ h i u, (empty.write ws).tx? h i = some u → u.hash ≠ "a") ∧
      ¬ (empty.write vs).Finds "a" ∧ (empty.write vs).txByHash? "a" = some (t 2 "b") ∧
      (empty.write vs).tx? 1 0 = some (t 1 "a") := by
  intro t ws vs
  have hne : "b" ≠ "a" := by decide
  refine ⟨⟨fun hfinds => hne (hfinds.stored (t 1 "b") rfl).2, rfl, fun h i u hu hname => ?_⟩,
    fun hfinds => hne (hfinds.stored (t 2 "b") rfl).2, rfl, rfl⟩
  have hlast := hu
  rw [tx?_write] at hlast
  obtain ⟨hmem, hat⟩ := of_lastWritten hlast
  -- only the first write has the name, and the second one stands in its place
  simp only [ws, List.mem_cons, Write.tx.injEq, List.not_mem_nil, or_false] at hmem
  rcases hmem with rfl | rfl
  · simp only [TxResult.isAt, t, Bool.and_eq_true, beq_iff_eq] at hat
    obtain ⟨rfl, rfl⟩ := hat
    have hsecond : some (t 1 "b") = some (t 1 "a") := hu
    exact hne (congrArg TxResult.hash (Option.some.inj hsecond))
  · exact hne hname

end Store
end BlockIngest
