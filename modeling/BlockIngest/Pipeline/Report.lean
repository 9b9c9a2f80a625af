import BlockIngest.Decimal.Fixed
import BlockIngest.Pipeline.Shared

/-!
# Reports

At regular times the state of a run is reported in one line, with the rate at which heights were
committed since the line before.

## Main definitions

* `Report` — what a line says.
* `Reporter`, `Reporter.report` — the earlier reading, and the next line.
-/

namespace BlockIngest

/-- What a line says. -/
structure Report where
  /-- Heights committed per second, with two places. -/
  heightsPerSec : String
  /-- The counters. -/
  telemetry : Telemetry
  /-- The lowest height of the chunk that is due. -/
  nextCommit : Nat
  /-- The accepted head, if there is one, in words. -/
  head : String
  /-- How many chunks are buffered. -/
  bufferedChunks : Nat
  /-- How many ranges are claimed. -/
  claimedChunks : Nat
  deriving DecidableEq, Repr

/-- The words for a head. -/
def Report.headWords : Option Nat → String
  | some head => s!"Some({head})"
  | none => "None"

/-- What the next line is compared with. -/
structure Reporter where
  /-- The counters when the line before was written. -/
  previous : Telemetry
  /-- When that was. -/
  since : Nat
  deriving DecidableEq, Repr

namespace Reporter

/-- The line that is written `now`. -/
def report (r : Reporter) (s : Shared) (now : Nat) : Report × Reporter :=
  ({ heightsPerSec := Decimal.fixed 2 (s.telemetry.commitRate r.previous (now - r.since)).toBits
     telemetry := s.telemetry
     nextCommit := s.buffer.nextCommit
     head := Report.headWords s.planner.head
     bufferedChunks := s.buffer.size
     claimedChunks := s.planner.claimed.size },
   ⟨s.telemetry, now⟩)

end Reporter

end BlockIngest
