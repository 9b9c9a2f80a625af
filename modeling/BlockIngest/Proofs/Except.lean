import Mathlib.Data.List.Forall2

/-!
# Computations that may fail

A computation of several steps succeeds if each of its steps does, and the first step that
fails decides how it fails.

## Main results

* `bind_eq_ok` — a computation of two steps.
* `mapM_eq_ok` — one step for each item of a list.
* `mapM_concat_ok`, `mapM_append_error` — the step after those that have succeeded.
-/

namespace BlockIngest

variable {ε α β : Type}

/-- A computation of two steps succeeds if and only if both do. -/
theorem bind_eq_ok {x : Except ε α} {f : α → Except ε β} {b : β} :
    x >>= f = .ok b ↔ ∃ a, x = .ok a ∧ f a = .ok b := by
  constructor
  · intro h
    cases x with
    | error e => cases h
    | ok a => exact ⟨a, rfl, h⟩
  · rintro ⟨a, rfl, h⟩
    exact h

theorem mapError_eq_ok {ε' : Type} {x : Except ε α} {g : ε → ε'} {a : α} :
    x.mapError g = .ok a ↔ x = .ok a := by
  cases x <;> simp [Except.mapError]

variable {g : α → Except ε β} {as : List α} {bs : List β}

/-- All items of a list are read if and only if each of them is. -/
theorem mapM_eq_ok : as.mapM g = .ok bs ↔ List.Forall₂ (fun a b => g a = .ok b) as bs := by
  induction as generalizing bs with
  | nil =>
    rw [List.mapM_nil, List.forall₂_nil_left_iff]
    exact ⟨fun h => by cases h; rfl, fun h => by rw [h]; rfl⟩
  | cons a as ih =>
    rw [List.mapM_cons, bind_eq_ok, List.forall₂_cons_left_iff]
    constructor
    · rintro ⟨b, hb, htail⟩
      obtain ⟨bs', hbs', hout⟩ := bind_eq_ok.mp htail
      cases hout
      exact ⟨b, bs', hb, ih.mp hbs', rfl⟩
    · rintro ⟨b, bs', hb, hbs', rfl⟩
      exact ⟨b, hb, bind_eq_ok.mpr ⟨bs', ih.mpr hbs', rfl⟩⟩

/-- One more item is read. -/
theorem mapM_concat_ok {a : α} {b : β} (has : as.mapM g = .ok bs) (ha : g a = .ok b) :
    (as ++ [a]).mapM g = .ok (bs ++ [b]) := by
  rw [List.mapM_append, has, List.mapM_cons, ha]
  rfl

/-- The first item that is not read decides, whatever comes after it. -/
theorem mapM_append_error {a : α} {e : ε} (has : as.mapM g = .ok bs) (ha : g a = .error e)
    (later : List α) : (as ++ a :: later).mapM g = .error e := by
  rw [List.mapM_append, has, List.mapM_cons, ha]
  rfl

end BlockIngest
