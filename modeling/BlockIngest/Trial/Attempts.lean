import BlockIngest.Retry

/-!
# Trials of a retried operation

An operation whose outcomes are scripted is retried on a clock that moves only in pauses.  The
cancellation of the retry comes before it, during an attempt, with the report of a failure, or at a
time; it is seen before an attempt and in a pause, and only if the retry heeds it.

## Main definitions

* `Trial.Outcome` — what an attempt does.
* `Trial.Cancellation` — when the retry is cancelled.
* `Trial.FailureReport`, `Trial.Attempts` — what is reported about a failure, and all that happens.
* `Trial.attempts` — a whole retry.
-/

namespace BlockIngest

namespace Trial

/-- What an attempt does. -/
inductive Outcome where
  /-- It succeeds. -/
  | succeeds
  /-- It fails; `final` says that the failure is not worth a further attempt. -/
  | fails (failure : Failure) (final : Bool)
  deriving DecidableEq, Repr

/-- When a retry is cancelled. -/
structure Cancellation where
  /-- Whether the retry heeds a cancellation at all. -/
  heeded : Bool
  /-- It is cancelled before the first attempt. -/
  before : Bool := false
  /-- It is cancelled during this attempt. -/
  inAttempt : Option Nat := none
  /-- It is cancelled while the failure of this attempt is reported. -/
  inReport : Option Nat := none
  /-- It is cancelled at this time. -/
  atTime : Option Nat := none
  deriving DecidableEq, Repr

/-- What is reported about a failed attempt. -/
structure FailureReport where
  /-- The number of the attempt. -/
  attempt : Nat
  /-- The pause after it. -/
  delay : Nat
  /-- The failure. -/
  failure : Failure
  /-- Whether another attempt follows. -/
  willRetry : Bool
  deriving DecidableEq, Repr

/-- All that happens in a retry. -/
structure Attempts where
  /-- The attempts, with the times at which they were made. -/
  calls : List (Nat × Nat)
  /-- The reports. -/
  reports : List FailureReport
  /-- The number of the attempt that succeeded, or why none did. -/
  outcome : Except Retry.Failed Nat
  /-- When the retry ended. -/
  ended : Nat
  deriving Repr

namespace Attempts

/-- A retry that ends without a further attempt. -/
def stop (outcome : Except Retry.Failed Nat) (now : Nat) : Attempts := ⟨[], [], outcome, now⟩

/-- An attempt that comes before all others. -/
def withCall (a : Attempts) (attempt now : Nat) : Attempts :=
  { a with calls := (attempt, now) :: a.calls }

/-- A report that comes before all others. -/
def withReport (a : Attempts) (r : FailureReport) : Attempts := { a with reports := r :: a.reports }

end Attempts

/-- When a pause that begins now is cut short, if it is. -/
def Cancellation.cutsShort (c : Cancellation) (cancelled : Bool) (now length : Nat) : Option Nat :=
  if length = 0 ∨ !c.heeded then none
  else if cancelled then some now
  else
    match c.atTime with
    | some time => if time < now + length then some (max now time) else none
    | none => none

/-- Whether the retry is cancelled once a pause that begins now is over. -/
def Cancellation.cancelledAfter (c : Cancellation) (cancelled : Bool) (now length : Nat) : Bool :=
  cancelled || c.atTime.any fun time => decide (time ≤ now + length)

/-- A retry from an attempt on.  An operation whose script is at its end succeeds. -/
def attemptsFrom (c : Cancellation) : List Outcome → Retry → (now : Nat) → (cancelled : Bool) →
    Attempts
  | script, r, now, cancelled =>
      if c.heeded && cancelled then .stop (.error .cancelled) now
      else
        match script with
        | [] => (Attempts.stop (.ok r.attempt) now).withCall r.attempt now
        | .succeeds :: _ => (Attempts.stop (.ok r.attempt) now).withCall r.attempt now
        | .fails failure final :: rest =>
            let report (willRetry : Bool) : FailureReport :=
              ⟨r.attempt, r.delay, failure, willRetry⟩
            match r.judge final with
            | .abort =>
                (Attempts.stop (.error (.aborted r.attempt failure)) now).withCall r.attempt now
            | .giveUp =>
                let last := Attempts.stop (.error (.exhausted r.attempt failure)) now
                (last.withReport (report false)).withCall r.attempt now
            | .pause length =>
                let cancelled :=
                  cancelled || c.inAttempt = some r.attempt || c.inReport = some r.attempt
                let later := match c.cutsShort cancelled now length with
                  | some time => Attempts.stop (.error .cancelled) time
                  | none =>
                      attemptsFrom c rest r.again (now + length)
                        (c.cancelledAfter cancelled now length)
                (later.withReport (report true)).withCall r.attempt now

/-- A whole retry. -/
def attempts (c : Cancellation) (policy : Retry.Policy) (script : List Outcome) : Attempts :=
  attemptsFrom c script (.start policy) 0 c.before

end Trial

end BlockIngest
