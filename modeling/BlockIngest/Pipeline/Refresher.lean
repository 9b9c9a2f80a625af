import BlockIngest.Pipeline.Shared

/-!
# The refresher

The refresher asks the node for the head of the chain at regular times and passes it on to the
planner.  A question that fails changes nothing; the next one follows at its own time.

## Main definitions

* `RefresherPhase`, `RefresherSignal` — what the refresher is doing, and what moves it.
* `Refresher.step` — the next phase.
-/

namespace BlockIngest

/-- What the refresher is doing. -/
inductive RefresherPhase where
  /-- It waits for its time. -/
  | waiting
  /-- It waits for the answer. -/
  | asking
  /-- It has ended. -/
  | exited
  deriving DecidableEq, Repr

/-- What moves the refresher. -/
inductive RefresherSignal where
  /-- It is time to ask. -/
  | tick
  /-- The answer. -/
  | head (answer : Except Failure Nat)
  /-- It notices that the run is cancelled. -/
  | cancel

namespace Refresher

/-- Takes note of an answer about the head. -/
def heard (s : Shared) (answer : Except Failure Nat) : Shared :=
  match answer with
  | .ok head => s.observe head
  | .error _ => s

/-- What a signal makes of the refresher; nothing if it is not meant for what the refresher is
doing. -/
def step (s : Shared) : RefresherPhase → RefresherSignal → Option (RefresherPhase × Shared)
  | .waiting, .tick => some (.asking, s)
  | .asking, .head answer => some (.waiting, heard s answer)
  | .waiting, .cancel => if s.isCancelled then some (.exited, s) else none
  | .asking, .cancel => if s.isCancelled then some (.exited, s) else none
  | _, _ => none

end Refresher

end BlockIngest
