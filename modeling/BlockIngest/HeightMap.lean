/-!
# Maps keyed by number

A finite map from numbers to values, kept as a list of entries in ascending order of the key.  The
order is part of the type, so the first entry is the one with the least key and no key occurs twice.

## Main definitions

* `HeightMap` — the map.
* `HeightMap.insert`, `HeightMap.erase`, `HeightMap.find?` — writing, removing and looking up one
  key.
* `HeightMap.first?`, `HeightMap.keys`, `HeightMap.values`, `HeightMap.size` — the entries in order.

## Main results

* `HeightMap.find?_insert`, `HeightMap.find?_erase` — looking up after writing and after removing.
-/

namespace BlockIngest

/-- A finite map from numbers to `α`: entries in strictly ascending order of their keys. -/
structure HeightMap (α : Type) where
  /-- The entries. -/
  entries : List (Nat × α)
  /-- Keys ascend, so that none occurs twice. -/
  ascending : entries.Pairwise (fun a b => a.1 < b.1)

namespace HeightMap

variable {α : Type}

/-- The map without entries. -/
def empty : HeightMap α := ⟨[], List.Pairwise.nil⟩

/-- The map that stands for want of another is empty. -/
instance : Inhabited (HeightMap α) := ⟨empty⟩

/-- Writes `v` at `k` into an ascending list, over what stood there. -/
def insertEntry (k : Nat) (v : α) : List (Nat × α) → List (Nat × α)
  | [] => [(k, v)]
  | e :: es => if k < e.1 then (k, v) :: e :: es
      else if k = e.1 then (k, v) :: es
      else e :: insertEntry k v es

/-- An entry of a list in which a key was written is the new one or an old one. -/
theorem mem_insertEntry {k : Nat} {v : α} {es : List (Nat × α)} {x : Nat × α}
    (h : x ∈ insertEntry k v es) : x = (k, v) ∨ x ∈ es := by
  induction es with
  | nil => simpa [insertEntry] using h
  | cons e es ih =>
    unfold insertEntry at h
    split at h
    · simpa using h
    · split at h
      · rcases List.mem_cons.1 h with h | h
        · exact .inl h
        · exact .inr (List.mem_cons_of_mem _ h)
      · rcases List.mem_cons.1 h with h | h
        · exact .inr (h ▸ List.mem_cons_self)
        · exact (ih h).imp_right (List.mem_cons_of_mem _)

/-- Writing a key keeps the order. -/
theorem ascending_insertEntry (k : Nat) (v : α) {es : List (Nat × α)}
    (h : es.Pairwise (fun a b => a.1 < b.1)) :
    (insertEntry k v es).Pairwise (fun a b => a.1 < b.1) := by
  induction es with
  | nil => simp [insertEntry]
  | cons e es ih =>
    obtain ⟨he, hes⟩ := List.pairwise_cons.1 h
    unfold insertEntry
    split
    next hk =>
      refine List.pairwise_cons.2 ⟨fun x hx => ?_, h⟩
      rcases List.mem_cons.1 hx with rfl | hx
      · exact hk
      · exact Nat.lt_trans hk (he x hx)
    next hk =>
      split
      next heq => exact List.pairwise_cons.2 ⟨fun x hx => heq ▸ he x hx, hes⟩
      next hne =>
        refine List.pairwise_cons.2 ⟨fun x hx => ?_, ih hes⟩
        rcases mem_insertEntry hx with rfl | hx
        · show e.1 < k
          omega
        · exact he x hx

/-- Writes `v` at `k`, over what stood there. -/
def insert (m : HeightMap α) (k : Nat) (v : α) : HeightMap α :=
  ⟨insertEntry k v m.entries, ascending_insertEntry k v m.ascending⟩

/-- Removes what stands at `k`. -/
def erase (m : HeightMap α) (k : Nat) : HeightMap α :=
  ⟨m.entries.filter (fun e => e.1 != k), m.ascending.filter _⟩

/-- What stands at `k`. -/
def find? (m : HeightMap α) (k : Nat) : Option α :=
  (m.entries.find? (fun e => e.1 == k)).map Prod.snd

/-- The entry with the least key. -/
def first? (m : HeightMap α) : Option (Nat × α) := m.entries.head?

/-- The keys in ascending order. -/
def keys (m : HeightMap α) : List Nat := m.entries.map Prod.fst

/-- The values in ascending order of their keys. -/
def values (m : HeightMap α) : List α := m.entries.map Prod.snd

/-- How many keys have a value. -/
def size (m : HeightMap α) : Nat := m.entries.length

/-- Whether no key has a value. -/
def isEmpty (m : HeightMap α) : Bool := m.entries.isEmpty

/-- The empty map has no keys. -/
@[simp] theorem find?_empty (k : Nat) : (empty : HeightMap α).find? k = none := rfl

/-- Looking up a key in a list in which one was written. -/
theorem find?_insertEntry (k j : Nat) (v : α) (es : List (Nat × α)) :
    ((insertEntry k v es).find? (fun e => e.1 == j)).map Prod.snd
      = if k = j then some v else (es.find? (fun e => e.1 == j)).map Prod.snd := by
  induction es with
  | nil => by_cases h : k = j <;> simp [insertEntry, h]
  | cons e es ih =>
    unfold insertEntry
    split
    next => by_cases h : k = j <;> simp [h]
    next =>
      split
      next heq =>
        by_cases h : k = j
        · simp [h]
        · simp [h, ← heq]
      next hne =>
        by_cases he : e.1 = j
        · have : ¬ k = j := fun hk => hne (hk.trans he.symm)
          simp [he, this]
        · simp only [List.find?_cons, beq_eq_false_iff_ne.2 he]
          exact ih

/-- A written value is found at its key, and all else stays as it was. -/
theorem find?_insert (m : HeightMap α) (k j : Nat) (v : α) :
    (m.insert k v).find? j = if k = j then some v else m.find? j :=
  find?_insertEntry k j v m.entries

/-- A removed key has no value, and all else stays as it was. -/
theorem find?_erase (m : HeightMap α) (k j : Nat) :
    (m.erase k).find? j = if k = j then none else m.find? j := by
  unfold erase find?
  rw [List.find?_filter]
  split
  next h =>
    subst h
    rw [List.find?_eq_none.2 fun e _ => by simp]
    rfl
  next h =>
    congr 2
    funext e
    by_cases he : e.1 = j
    · simp [he, Ne.symm h]
    · simp [he]

end HeightMap

end BlockIngest
