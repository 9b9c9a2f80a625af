import BlockIngest.Duration

/-!
# Regular times

A ticker is due at regular times, the first time at once.  Whoever comes within a short grace after
a time has not missed it.  Whoever comes later has, and then either waits for the next of the old
times or starts a new count from now.

## Main definitions

* `Ticker`, `Ticker.start` — when it is due.
* `Missed` — what happens to times that were missed.
* `Ticker.tick` — a time was kept or missed.
-/

namespace BlockIngest

/-- What happens to times that were missed. -/
inductive Missed where
  /-- They are left out; the old times stay. -/
  | skip
  /-- All further times are put off. -/
  | delay
  deriving DecidableEq, Repr

/-- A time that comes again and again. -/
structure Ticker where
  /-- The distance between two times. -/
  period : Nat
  /-- What happens to times that were missed. -/
  missed : Missed
  /-- The next time. -/
  due : Nat
  deriving DecidableEq, Repr

namespace Ticker

/-- A ticker that is due at once. -/
def start (period : Nat) (missed : Missed) (now : Nat) : Ticker := ⟨period, missed, now⟩

/-- How late one may come without having missed the time. -/
def grace : Nat := Duration.ofMillis 5

/-- The time after the one that is kept `now`. -/
def following (t : Ticker) (now : Nat) : Nat :=
  if now ≤ t.due + grace then t.due + t.period
  else
    match t.missed with
    | .skip => now + t.period - (now - t.due) % t.period
    | .delay => now + t.period

/-- The ticker after the time that is kept `now`. -/
def tick (t : Ticker) (now : Nat) : Ticker := { t with due := t.following now }

end Ticker

end BlockIngest
