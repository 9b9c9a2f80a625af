import BlockIngest.Counter
import Mathlib.Algebra.Group.Nat.Defs
import Mathlib.Data.Nat.ModEq

/-!
# What a counter says

A counter has forgotten how often it has wrapped round, and nothing else.  So what it says is right
up to multiples of `2 ^ 64`; and in whatever portions events are counted, and in whatever order, it
says the same.

## Main results

* `Counter.bump_modEq` — a counter goes up by what is added to it, but wraps round.
* `Counter.bump_mod` — that it has wrapped round before makes no difference.
* `Counter.bump_bump` — **to count twice is to count once, as many.**
-/

namespace BlockIngest

namespace Counter

theorem bump_eq (counter n : ℕ) : bump counter n = (counter + n) % 2 ^ 64 := rfl

theorem bump_modEq (counter n : ℕ) : bump counter n ≡ counter + n [MOD 2 ^ 64] :=
  Nat.mod_modEq _ _

theorem bump_mod (counter n : ℕ) : bump (counter % 2 ^ 64) n = (counter + n) % 2 ^ 64 := by
  rw [bump_eq, Nat.mod_add_mod]

theorem bump_bump (counter n k : ℕ) : bump (bump counter n) k = bump counter (n + k) := by
  rw [bump_eq counter n, bump_mod, bump_eq, Nat.add_assoc]

theorem bump_right_comm (counter n k : ℕ) :
    bump (bump counter n) k = bump (bump counter k) n := by
  rw [bump_bump, bump_bump, Nat.add_comm]

end Counter

end BlockIngest
