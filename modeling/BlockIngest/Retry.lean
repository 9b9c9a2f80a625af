import BlockIngest.Duration
import BlockIngest.Failure

/-!
# Retrying

An operation that fails is tried again after a pause.  Pauses double from an initial length up to a
ceiling, and the number of attempts may be limited.  Some failures are not worth a further attempt,
and a cancelled retry makes none.

## Main definitions

* `Retry.Policy` — the first pause, the longest pause and the number of attempts.
* `Retry.nextDelay`, `Retry.Policy.delay` — how pauses grow.
* `Retry`, `Retry.start`, `Retry.again` — an attempt under way, the first one and the one after it.
* `Retry.judge`, `Retry.Verdict` — what follows from a failed attempt.
* `Retry.Failed` — how a retry ends without success.
-/

namespace BlockIngest

namespace Retry

/-- How often and at which distances an operation is tried. -/
structure Policy where
  /-- The pause after the first failure. -/
  initial : Nat
  /-- The longest pause. -/
  longest : Nat
  /-- How many attempts are made; at least one always is. -/
  attempts : Option Nat
  deriving DecidableEq, Repr

/-- The pause after a pause of length `d`: twice as long, or a millisecond after none at all, but
never longer than `longest`. -/
def nextDelay (longest d : Nat) : Nat :=
  if d = 0 then min longest Duration.millisecond else min (Duration.double d) longest

/-- The pause after the failure of attempt `k + 1`. -/
def Policy.delay (p : Policy) : Nat → Nat
  | 0 => p.initial
  | k + 1 => nextDelay p.longest (p.delay k)

/-- How a retry ends without success. -/
inductive Failed where
  /-- It was cancelled. -/
  | cancelled
  /-- A failure was not worth a further attempt. -/
  | aborted (attempts : Nat) (failure : Failure)
  /-- All attempts were spent. -/
  | exhausted (attempts : Nat) (failure : Failure)
  deriving DecidableEq, Repr

/-- The wording of a retry without success. -/
def Failed.message : Failed → String
  | .cancelled => "retry cancelled"
  | .aborted attempts failure => s!"aborted after {attempts} attempt(s): {failure.message}"
  | .exhausted attempts failure => s!"gave up after {attempts} attempt(s): {failure.message}"

/-- What follows from a failed attempt. -/
inductive Verdict where
  /-- The failure is not worth a further attempt. -/
  | abort
  /-- This was the last attempt. -/
  | giveUp
  /-- Another attempt follows after a pause. -/
  | pause (length : Nat)
  deriving DecidableEq, Repr

end Retry

/-- An attempt under way. -/
structure Retry where
  /-- The policy. -/
  policy : Retry.Policy
  /-- The number of the attempt, from one on.  A policy that limits attempts keeps it within the
  limit, which is a word of 64 bits, as are those of all tasks.  Without a limit a word would
  overflow after `2 ^ 64` attempts, where this number goes on. -/
  attempt : Nat
  /-- The pause that follows if it fails. -/
  delay : Nat
  deriving DecidableEq, Repr

namespace Retry

/-- The first attempt. -/
def start (p : Policy) : Retry := ⟨p, 1, p.initial⟩

/-- The attempt after this one. -/
def again (r : Retry) : Retry :=
  { r with attempt := r.attempt + 1, delay := nextDelay r.policy.longest r.delay }

/-- Whether no attempt may follow this one. -/
def isLast (r : Retry) : Bool :=
  match r.policy.attempts with
  | some n => decide (n ≤ r.attempt)
  | none => false

/-- What follows if this attempt fails; `final` says that the failure is not worth a further
attempt. -/
def judge (r : Retry) (final : Bool) : Verdict :=
  if final then .abort else if r.isLast then .giveUp else .pause r.delay

/-- The attempt with number `k + 1`. -/
def attemptAt (p : Policy) : Nat → Retry
  | 0 => start p
  | k + 1 => (attemptAt p k).again

/-- The attempt after `k` others is number `k + 1`, and has their delay behind it. -/
theorem attemptAt_eq (p : Policy) (k : Nat) : attemptAt p k = ⟨p, k + 1, p.delay k⟩ := by
  induction k with
  | zero => rfl
  | succ k ih => simp [attemptAt, ih, again, Policy.delay]

end Retry

end BlockIngest
