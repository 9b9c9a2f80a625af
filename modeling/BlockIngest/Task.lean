/-!
# Tasks

The pipeline runs as tasks that take turns.  A task has a name, so that others can say for whom
something is meant.

## Main definitions

* `TaskId` — the names.
-/

namespace BlockIngest

/-- The name of a task. -/
inductive TaskId where
  /-- Commits chunks in order. -/
  | sequencer
  /-- Fetches chunks; workers are numbered from zero. -/
  | worker (i : Nat)
  /-- Asks for the chain head again and again. -/
  | refresher
  /-- Reports the counters again and again. -/
  | reporter
  /-- Calls the pipeline from outside. -/
  | visitor (i : Nat)
  deriving DecidableEq, Repr

end BlockIngest
