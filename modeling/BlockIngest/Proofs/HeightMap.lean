import BlockIngest.HeightMap
import Mathlib.Data.List.Sort
import Mathlib.Data.List.Perm.Basic

/-!
# Maps keyed by number: their values as a whole

A map is determined by what is found at each key, and its values are, up to
order, what was put in and not taken out again.  The second fact is what lets a
set of ranges be followed from one map to another; the first one is what lets a
map that was filled piece by piece be recognised as a list.

## Main results

* `HeightMap.of_find?_insert`, `HeightMap.of_find?_erase` — where something found after
  writing or removing a key comes from.
* `HeightMap.find?_eq_some_iff`, `HeightMap.mem_values` — entries and values by
  what is found.
* `HeightMap.le_of_first?` — the first entry has the least key.
* `HeightMap.entries_insert_perm`, `HeightMap.entries_erase_perm` — the entries
  after writing a free key and after removing a taken one; with `values_` for the values.
* `HeightMap.eq_of_find?` — **a map is what is found in it.**
* `HeightMap.values_perm`, `HeightMap.entries_insert_erase` — what stands in the map before
  and after writing any key, by what the two have in common.
* `HeightMap.ofList`, `HeightMap.eq_ofList` — the map that numbers a list.
* `HeightMap.size_insert`, `HeightMap.size_erase` — how many keys have a value.
* `HeightMap.size_add_length_gaps` — how many keys have a value, by the keys below a bound that
  have none and those from it on that have one.
* `HeightMap.find?_reverse_values`, `HeightMap.of_find?_reverse_values` — the last value of a
  kind is the one at the greatest key.
-/

namespace BlockIngest
namespace HeightMap

variable {α : Type} {m : HeightMap α} {k : ℕ} {v : α}

/-! ### What is found -/

private theorem find?_entries {es : List (ℕ × α)} (hes : es.Pairwise fun a b => a.1 < b.1) :
    (es.find? fun e => e.1 == k).map Prod.snd = some v ↔ (k, v) ∈ es := by
  induction es with
  | nil => simp
  | cons e es ih =>
    obtain ⟨hlt, hrest⟩ := List.pairwise_cons.mp hes
    obtain ⟨j, u⟩ := e
    by_cases hj : j = k
    · subst hj
      have hnot : ∀ w, (j, w) ∉ es := fun w hw => absurd (hlt _ hw) (lt_irrefl j)
      simp only [List.find?_cons, beq_self_eq_true, Option.map_some, Option.some.injEq,
        List.mem_cons, Prod.mk.injEq, true_and, hnot, or_false]
      exact eq_comm
    · have hne : (k, v) ≠ (j, u) := fun h => hj (congrArg Prod.fst h).symm
      rw [List.find?_cons, beq_eq_false_iff_ne.mpr hj, List.mem_cons, ih hrest]
      exact ⟨Or.inr, fun h => h.resolve_left hne⟩

theorem find?_insert_self (m : HeightMap α) (k : ℕ) (v : α) : (m.insert k v).find? k = some v := by
  rw [find?_insert, if_pos rfl]

/-- What is found after writing a key was written there or found before. -/
theorem of_find?_insert {j : ℕ} {u : α} (h : (m.insert k v).find? j = some u) :
    k = j ∧ v = u ∨ k ≠ j ∧ m.find? j = some u := by
  rw [find?_insert] at h
  split at h
  · next hk => exact Or.inl ⟨hk, Option.some.inj h⟩
  · next hk => exact Or.inr ⟨hk, h⟩

/-- What is found after removing a key was found before, elsewhere. -/
theorem of_find?_erase {j : ℕ} {u : α} (h : (m.erase k).find? j = some u) :
    k ≠ j ∧ m.find? j = some u := by
  rw [find?_erase] at h
  split at h
  · cases h
  · next hk => exact ⟨hk, h⟩

/-- What is found at a key is the entry with that key. -/
theorem find?_eq_some_iff : m.find? k = some v ↔ (k, v) ∈ m.entries :=
  find?_entries m.ascending

theorem mem_values : v ∈ m.values ↔ ∃ k, m.find? k = some v := by
  simp only [values, List.mem_map, find?_eq_some_iff]
  constructor
  · rintro ⟨⟨j, u⟩, he, rfl⟩
    exact ⟨j, he⟩
  · rintro ⟨j, he⟩
    exact ⟨(j, v), he, rfl⟩

theorem nodup_entries (m : HeightMap α) : m.entries.Nodup :=
  m.ascending.imp fun h he => absurd (congrArg Prod.fst he) (ne_of_lt h)

theorem find?_of_first? (h : m.first? = some (k, v)) : m.find? k = some v :=
  find?_eq_some_iff.mpr (List.mem_of_mem_head? h)

/-- The first entry has the least key. -/
theorem le_of_first? {j : ℕ} {u : α} (h : m.first? = some (k, v)) (hu : m.find? j = some u) :
    k ≤ j := by
  obtain ⟨rest, hentries⟩ := List.head?_eq_some_iff.mp h
  have hmem := find?_eq_some_iff.mp hu
  have hasc := m.ascending
  rw [hentries, List.pairwise_cons] at hasc
  rw [hentries, List.mem_cons] at hmem
  rcases hmem with heq | hmem
  · exact (congrArg Prod.fst heq).ge
  · exact (hasc.1 _ hmem).le

theorem first?_eq_none_iff : m.first? = none ↔ m.values = [] := by
  unfold first? values
  rw [List.head?_eq_none_iff, List.map_eq_nil_iff]

/-! ### Entries and values, up to order -/

/-- Writing a key that is free adds one entry. -/
theorem entries_insert_perm (h : m.find? k = none) :
    (m.insert k v).entries.Perm ((k, v) :: m.entries) := by
  refine (List.perm_ext_iff_of_nodup (nodup_entries _)
    (List.nodup_cons.mpr ⟨?_, nodup_entries m⟩)).mpr ?_
  · intro he
    rw [find?_eq_some_iff.mpr he] at h
    exact absurd h (by simp)
  · rintro ⟨j, u⟩
    rw [← find?_eq_some_iff, find?_insert, List.mem_cons, ← find?_eq_some_iff]
    by_cases hj : k = j
    · subst hj
      simp [h, eq_comm]
    · simp [hj, Ne.symm hj]

/-- Removing a key that is taken removes its entry. -/
theorem entries_erase_perm (h : m.find? k = some v) :
    m.entries.Perm ((k, v) :: (m.erase k).entries) := by
  refine (List.perm_ext_iff_of_nodup (nodup_entries m)
    (List.nodup_cons.mpr ⟨?_, nodup_entries _⟩)).mpr ?_
  · rw [← find?_eq_some_iff, find?_erase, if_pos rfl]
    simp
  · rintro ⟨j, u⟩
    rw [← find?_eq_some_iff, List.mem_cons, ← find?_eq_some_iff, find?_erase]
    by_cases hj : k = j
    · subst hj
      simp [h, eq_comm]
    · simp [hj, Ne.symm hj]

/-- Writing a key that is free adds one value. -/
theorem values_insert_perm (h : m.find? k = none) : (m.insert k v).values.Perm (v :: m.values) :=
  (entries_insert_perm h).map Prod.snd

/-- Removing a key that is taken removes its value. -/
theorem values_erase_perm (h : m.find? k = some v) : m.values.Perm (v :: (m.erase k).values) :=
  (entries_erase_perm h).map Prod.snd

/-- No entry is left at a key that was removed. -/
theorem ne_of_mem_erase {j : ℕ} {u : α} (h : (j, u) ∈ (m.erase k).entries) : j ≠ k := by
  exact (of_find?_erase (find?_eq_some_iff.mpr h)).1.symm

/-! ### Maps as functions -/

/-- **A map is what is found in it.** -/
theorem eq_of_find? {m n : HeightMap α} (h : ∀ k, m.find? k = n.find? k) : m = n := by
  have hperm : m.entries.Perm n.entries := by
    refine (List.perm_ext_iff_of_nodup (nodup_entries m) (nodup_entries n)).mpr ?_
    rintro ⟨j, u⟩
    rw [← find?_eq_some_iff, ← find?_eq_some_iff, h]
  have hentries : m.entries = n.entries :=
    hperm.eq_of_pairwise (fun a b _ _ hab hba => absurd (hab.trans hba) (lt_irrefl _))
      m.ascending n.ascending
  cases m
  cases n
  congr

/-- What stood at a key makes no difference once the key is written. -/
theorem insert_erase (m : HeightMap α) (k : ℕ) (v : α) : (m.erase k).insert k v = m.insert k v := by
  refine eq_of_find? fun j => ?_
  rw [find?_insert, find?_insert, find?_erase]
  split <;> rfl

/-- The values are what stands at a key and the rest. -/
theorem values_perm (m : HeightMap α) (k : ℕ) :
    m.values.Perm ((m.find? k).toList ++ (m.erase k).values) := by
  rcases hk : m.find? k with _ | v
  · have hsame : m.erase k = m := eq_of_find? fun j => by
      rw [find?_erase]
      split
      · next hj => rw [← hj, hk]
      · rfl
    rw [hsame]
    rfl
  · exact values_erase_perm hk

/-- After writing a key, the entries are what was written and the rest. -/
theorem entries_insert_erase (m : HeightMap α) (k : ℕ) (v : α) :
    (m.insert k v).entries.Perm ((k, v) :: (m.erase k).entries) := by
  have hfree : (m.erase k).find? k = none := by rw [find?_erase, if_pos rfl]
  rw [← insert_erase]
  exact entries_insert_perm hfree

/-- After writing a key, the values are what was written and the rest. -/
theorem values_insert_erase (m : HeightMap α) (k : ℕ) (v : α) :
    (m.insert k v).values.Perm (v :: (m.erase k).values) :=
  (entries_insert_erase m k v).map Prod.snd

/-- The map that numbers the elements of a list from zero on. -/
def ofList (l : List α) : HeightMap α where
  entries := l.zipIdx.map Prod.swap
  ascending := by
    rw [List.pairwise_map]
    refine List.pairwise_iff_getElem.mpr fun i j hi hj hij => ?_
    simpa using hij

theorem find?_ofList (l : List α) (k : ℕ) : (ofList l).find? k = l[k]? := by
  refine Option.ext fun v => ?_
  rw [find?_eq_some_iff, ofList, List.mem_map]
  constructor
  · rintro ⟨⟨u, j⟩, he, hswap⟩
    obtain ⟨rfl, rfl⟩ := Prod.mk.inj hswap
    exact List.mk_mem_zipIdx_iff_getElem?.mp he
  · intro h
    exact ⟨(v, k), List.mk_mem_zipIdx_iff_getElem?.mpr h, rfl⟩

/-- A map in which the elements of a list are found is the one that numbers it. -/
theorem eq_ofList {l : List α} (h : ∀ k, m.find? k = l[k]?) : m = ofList l :=
  eq_of_find? fun k => by rw [h, find?_ofList]

@[simp] theorem size_ofList (l : List α) : (ofList l).size = l.length := by
  simp [size, ofList]

/-! ### How many keys have a value -/

theorem length_values (m : HeightMap α) : m.values.length = m.size := List.length_map _

theorem size_insert (h : m.find? k = none) : (m.insert k v).size = m.size + 1 := by
  rw [← length_values, ← length_values, (values_insert_perm h).length_eq, List.length_cons]

theorem size_erase (h : m.find? k = some v) : m.size = (m.erase k).size + 1 := by
  rw [← length_values, ← length_values, (values_erase_perm h).length_eq, List.length_cons]

theorem size_insert_erase (m : HeightMap α) (k : ℕ) (v : α) :
    (m.insert k v).size = (m.erase k).size + 1 := (entries_insert_erase m k v).length_eq

theorem size_insert_le (m : HeightMap α) (k : ℕ) (v : α) : (m.insert k v).size ≤ m.size + 1 := by
  have hless : (m.erase k).size ≤ m.size := List.length_filter_le _ _
  rw [size_insert_erase]
  exact Nat.succ_le_succ hless

/-! ### Gaps -/

/-- The keys below a bound that have no value. -/
def gaps (m : HeightMap α) (n : ℕ) : List ℕ := (List.range n).filter fun k => (m.find? k).isNone

/-- The keys from a bound on that have one. -/
def surplus (m : HeightMap α) (n : ℕ) : List ℕ := m.keys.filter fun k => decide (n ≤ k)

theorem mem_keys : k ∈ m.keys ↔ (m.find? k).isSome := by
  simp only [keys, List.mem_map, Option.isSome_iff_exists, find?_eq_some_iff]
  constructor
  · rintro ⟨⟨j, u⟩, he, rfl⟩
    exact ⟨u, he⟩
  · rintro ⟨u, he⟩
    exact ⟨(k, u), he, rfl⟩

theorem nodup_keys (m : HeightMap α) : m.keys.Nodup :=
  List.pairwise_map.mpr (m.ascending.imp fun h => ne_of_lt h)

/-- There are as many keys as the bound says, but for the gaps and what lies beyond. -/
theorem size_add_length_gaps (m : HeightMap α) (n : ℕ) :
    m.size + (m.gaps n).length = n + (m.surplus n).length := by
  -- the keys below the bound are counted in both ways
  have hbelow : (m.keys.filter fun k => !decide (n ≤ k)).Perm
      ((List.range n).filter fun k => !(m.find? k).isNone) := by
    refine (List.perm_ext_iff_of_nodup ((nodup_keys m).filter _)
      (List.nodup_range.filter _)).mpr fun k => ?_
    simp only [List.mem_filter, mem_keys, List.mem_range, Bool.not_eq_true',
      decide_eq_false_iff_not, not_le, Option.not_isNone]
    exact and_comm
  have hkeys := List.length_eq_length_filter_add (l := m.keys) fun k => decide (n ≤ k)
  have hrange := List.length_eq_length_filter_add (l := List.range n) fun k => (m.find? k).isNone
  have hsize : m.keys.length = m.size := List.length_map _
  have hsame := hbelow.length_eq
  rw [List.length_range] at hrange
  unfold gaps surplus
  omega

/-! ### The last value of a kind -/

/-- The last value of a kind is the one at the greatest key. -/
theorem find?_reverse_values {p : α → Bool} (hk : m.find? k = some v) (hv : p v)
    (hmax : ∀ j u, m.find? j = some u → p u → j ≤ k) : m.values.reverse.find? p = some v := by
  obtain ⟨before, after, hsplit⟩ := List.append_of_mem (find?_eq_some_iff.mp hk)
  have hafter : ∀ e ∈ after, ¬ p e.2 := by
    intro e he hp
    have hmem : e ∈ m.entries := by
      rw [hsplit]
      exact List.mem_append_right _ (List.mem_cons_of_mem _ he)
    have hlt : k < e.1 := by
      have hasc := m.ascending
      rw [hsplit, List.pairwise_append, List.pairwise_cons] at hasc
      exact hasc.2.1.1 e he
    exact absurd (hmax e.1 e.2 (find?_eq_some_iff.mpr hmem) hp) (by omega)
  have hnone : (after.map Prod.snd).reverse.find? p = none := by
    rw [List.find?_eq_none]
    intro u hu
    obtain ⟨e, he, rfl⟩ := List.mem_map.mp (List.mem_reverse.mp hu)
    exact hafter e he
  rw [values, hsplit, List.map_append, List.map_cons, List.reverse_append, List.reverse_cons,
    List.append_assoc, List.find?_append, hnone, Option.none_or, List.singleton_append,
    List.find?_cons_of_pos hv]

/-- The last value of a kind stands at the greatest key that has one. -/
theorem of_find?_reverse_values {p : α → Bool} (h : m.values.reverse.find? p = some v) :
    ∃ k, m.find? k = some v ∧ p v ∧ ∀ j u, m.find? j = some u → p u → j ≤ k := by
  obtain ⟨hv, after, before, hsplit, hafter⟩ := List.find?_eq_some_iff_append.mp h
  have hvalues : m.entries.map Prod.snd = before.reverse ++ v :: after.reverse := by
    have hreverse := congrArg List.reverse hsplit
    simpa [values] using hreverse
  obtain ⟨es, ds, hentries, -, hds⟩ := List.map_eq_append_iff.mp hvalues
  obtain ⟨⟨k, u⟩, later, rfl, rfl, hlater⟩ := List.map_eq_cons_iff.mp hds
  refine ⟨k, find?_eq_some_iff.mpr (hentries ▸ by simp), hv, fun j w hj hw => ?_⟩
  have hmem := find?_eq_some_iff.mp hj
  have hasc := m.ascending
  rw [hentries, List.pairwise_append] at hasc
  rw [hentries, List.mem_append, List.mem_cons] at hmem
  rcases hmem with hmem | heq | hmem
  · exact (hasc.2.2 _ hmem (k, u) List.mem_cons_self).le
  · exact (congrArg Prod.fst heq).le
  · -- what comes after it is not of the kind
    have hw' : w ∈ after := by
      rw [← List.mem_reverse, ← hlater]
      exact List.mem_map_of_mem (f := Prod.snd) hmem
    have hnot := hafter w hw'
    rw [hw] at hnot
    cases hnot

/-- There is no last value of a kind if there is none at all. -/
theorem find?_reverse_values_eq_none {p : α → Bool} (h : ∀ j u, m.find? j = some u → ¬ p u) :
    m.values.reverse.find? p = none := by
  rw [List.find?_eq_none]
  intro u hu
  obtain ⟨j, hj⟩ := mem_values.mp (List.mem_reverse.mp hu)
  exact h j u hj

end HeightMap
end BlockIngest
