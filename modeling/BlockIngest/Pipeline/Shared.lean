import BlockIngest.Buffer.Call
import BlockIngest.Planner
import BlockIngest.Progress
import BlockIngest.Publisher
import BlockIngest.Shutdown
import BlockIngest.Store
import BlockIngest.Telemetry

/-!
# What tasks share

The tasks of a run have no state in common but this.  Part of it stands while runs come and go; the
rest is made afresh for every run.

## Main definitions

* `Standing` — what outlives a run.
* `Shared` — everything that the tasks of a run share.
* `Shared.claim`, `Shared.giveBack`, `Shared.settle` — a range that is claimed, released and done.
-/

namespace BlockIngest

/-- What outlives a run. -/
structure Standing where
  /-- What is stored. -/
  store : Store
  /-- Who is told about it. -/
  publisher : Publisher
  /-- The last committed height. -/
  progress : Progress
  /-- What was counted, over all runs. -/
  telemetry : Telemetry

/-- Everything that the tasks of a run share. -/
structure Shared extends Standing where
  /-- Which ranges are fetched next. -/
  planner : Planner
  /-- What was fetched and is not committed yet. -/
  buffer : Buffer
  /-- How the run ends. -/
  shutdown : Shutdown

namespace Shared

/-- Whether the run has been told to end. -/
def isCancelled (s : Shared) : Bool := s.shutdown.run

/-- Claims the next range, if there is one. -/
def claim (s : Shared) : Option ChunkRange × Shared :=
  let (r, planner) := s.planner.next
  (r, { s with planner := planner })

/-- Takes note of a chain head. -/
def observe (s : Shared) (head : Nat) : Shared := { s with planner := (s.planner.observe head).2 }

/-- Releases a range because the run ends. -/
def giveBack (s : Shared) (r : ChunkRange) : Shared := { s with planner := (s.planner.release r).2 }

/-- Releases a range because it could not be fetched; that is counted. -/
def giveUp (s : Shared) (r : ChunkRange) : Shared :=
  match s.planner.release r with
  | (true, planner) => { s with planner := planner, telemetry := s.telemetry.releasedChunk }
  | (false, planner) => { s with planner := planner }

/-- A range is done: its chunk was handed to the buffer. -/
def settle (s : Shared) (r : ChunkRange) : Shared :=
  { s with planner := (s.planner.complete r).2, telemetry := s.telemetry.fetchedChunk }

end Shared

end BlockIngest
