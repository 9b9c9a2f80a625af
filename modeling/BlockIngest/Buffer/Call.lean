import BlockIngest.Buffer.Basic

/-!
# Calls that may have to wait for the buffer

A call to put a chunk in, or to take the due one out, goes round in three phases: it begins to
listen, it looks, and if it has looked in vain it waits until an announcement reaches it.  Between
two phases any other task may take its turn; each phase by itself is one step.

## Main definitions

* `CallPhase` — where a call stands.
* `Buffer.stepPush`, `Buffer.stepPop` — the next step of a call, if it can take one.
-/

namespace BlockIngest

/-- Where a call stands. -/
inductive CallPhase where
  /-- The call does not listen yet. -/
  | fresh
  /-- The call listens and is about to look. -/
  | looking
  /-- The call has looked in vain. -/
  | waiting
  deriving DecidableEq, Repr

/-- How a step of a call ends: the call goes on in a further phase, or it is done. -/
inductive CallStep (α : Type) where
  /-- The call goes on. -/
  | goOn (phase : CallPhase)
  /-- The call is done. -/
  | finished (result : α)

namespace Buffer

/-- The next step of a call of `t` that puts `c` in.  The result says whether the chunk was let
in. -/
def stepPush (b : Buffer) (t : TaskId) (c : CompletedChunk) :
    CallPhase → Option (CallStep Bool × Buffer)
  | .fresh => some (.goOn .looking, b.listen t)
  | .looking =>
      match b.offer c with
      | (.stale, b) => some (.finished false, b.forget t)
      | (.stored, b) => some (.finished true, b.forget t)
      | (.full, b) => some (.goOn .waiting, b)
  | .waiting => if b.isListening t then none else some (.goOn .fresh, b)

/-- The next step of a call of `t` that takes the due chunk out.  A chunk taken out is announced. -/
def stepPop (b : Buffer) (t : TaskId) : CallPhase → Option (CallStep CompletedChunk × Buffer)
  | .fresh => some (.goOn .looking, b.listen t)
  | .looking =>
      match b.take with
      | (some c, b) => some (.finished c, b.announce)
      | (none, b) => some (.goOn .waiting, b)
  | .waiting => if b.isListening t then none else some (.goOn .fresh, b)

end Buffer

end BlockIngest
