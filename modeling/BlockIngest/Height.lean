/-!
# Heights

A height numbers the blocks of a chain.  Heights are natural numbers that fit a 64-bit word, so
there is a top height, and counting past it stays at the top instead of wrapping round.

## Main definitions

* `Height.top` — the largest height.
* `Height.add`, `Height.next`, `Height.prev` — counting up and down, stopping at either end.
* `Height.resume` — the height at which ingestion goes on from what is stored.
-/

namespace BlockIngest

namespace Height

/-- The largest height: the top of a 64-bit word. -/
def top : Nat := 0xffffffffffffffff

/-- The height that is `n` above `h`, or the top if there are fewer. -/
def add (h n : Nat) : Nat := min (h + n) top

/-- The height above `h`; the top is above itself. -/
def next (h : Nat) : Nat := add h 1

/-- The height below `h`; zero is below itself. -/
def prev (h : Nat) : Nat := h - 1

/-- Ingestion goes on one above the latest stored height; an empty store counts as height zero. -/
def resume (latest : Option Nat) : Nat := next (latest.getD 0)

/-- Below the top the next height is one more. -/
@[simp] theorem next_of_lt {h : Nat} (lt : h < top) : next h = h + 1 := by
  unfold next add; omega

/-- The top has no height above it. -/
@[simp] theorem next_top : next top = top := by decide

/-- The next height is a height. -/
theorem next_le_top (h : Nat) : next h ≤ top := Nat.min_le_right _ _

/-- The next height is not below. -/
theorem le_next {h : Nat} (le : h ≤ top) : h ≤ next h := by
  unfold next add; omega

end Height

end BlockIngest
