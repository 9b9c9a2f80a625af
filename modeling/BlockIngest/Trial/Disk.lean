import BlockIngest.Failure
import BlockIngest.Trial.Chain

/-!
# A faulty store

A store for trials.  A script says which writes fail, and every write is logged.

## Main definitions

* `Trial.DiskAccess`, `Trial.DiskFault` — what can fail, and when it does.
* `Trial.LoggedWrite` — a line of the log.
* `Trial.Disk` — script and log.
* `Trial.Disk.write`, `Trial.Disk.readLatest` — a write, and the question for the latest height.
-/

namespace BlockIngest

namespace Trial

/-- What can fail. -/
inductive DiskAccess where
  /-- Writing a block. -/
  | block
  /-- Writing a transaction. -/
  | tx
  /-- Reading the latest height. -/
  | latest
  deriving DecidableEq, Repr

/-- The name of an access in the log. -/
def DiskAccess.message : DiskAccess → String
  | .block => "block"
  | .tx => "tx"
  | .latest => "latest"

/-- A fault in the script. -/
structure DiskFault where
  /-- What fails. -/
  access : DiskAccess
  /-- Only at this height. -/
  height : Option Nat
  /-- Only at this index. -/
  index : Option Nat
  /-- How often; without a number, always. -/
  left : Option Nat
  /-- The words of the failure. -/
  message : String
  /-- What was being done. -/
  context : Option String
  deriving DecidableEq, Repr

namespace DiskFault

/-- Whether a fault is about an access. -/
def fits (f : DiskFault) (access : DiskAccess) (height index : Option Nat) : Bool :=
  decide (f.access = access ∧ (f.height = none ∨ f.height = height) ∧
      (f.index = none ∨ f.index = index))

/-- The failure. -/
def failure (f : DiskFault) : Failure :=
  match f.context with
  | some context => (Failure.ofText f.message).context context
  | none => .ofText f.message

end DiskFault

/-- A write that was tried. -/
structure LoggedWrite where
  /-- When. -/
  time : Nat
  /-- What was written. -/
  access : DiskAccess
  /-- At which height. -/
  height : Nat
  /-- At which index, for a transaction. -/
  index : Option Nat
  /-- Whether it succeeded. -/
  succeeded : Bool
  deriving DecidableEq, Repr

/-- Script and log of a faulty store. -/
structure Disk where
  /-- What fails. -/
  faults : List DiskFault
  /-- What was tried since the log was last read. -/
  log : List LoggedWrite
  /-- How many writes were tried in all. -/
  writes : Nat
  /-- The write during which the run is cancelled. -/
  cancelOn : Option Nat
  deriving DecidableEq, Repr

namespace Disk

/-- A store with these faults. -/
def make (faults : List DiskFault) (cancelOn : Option Nat) : Disk := ⟨faults, [], 0, cancelOn⟩

/-- The script goes on with other faults. -/
def withFaults (d : Disk) (faults : List DiskFault) : Disk := { d with faults := faults }

/-- Tries an access. -/
def access (d : Disk) (access : DiskAccess) (height index : Option Nat) :
    Except Failure Unit × Disk :=
  let fits := fun f : DiskFault => f.fits access height index
  match takeFirst? fits DiskFault.left (fun f => { f with left := useUp f.left }) d.faults with
  | some (f, faults) => (.error f.failure, { d with faults := faults })
  | none => (.ok (), d)

/-- Whether an access succeeded. -/
def succeeded : Except Failure Unit → Bool
  | .ok _ => true
  | .error _ => false

/-- Tries a write. -/
def write (d : Disk) (now : Nat) (kind : DiskAccess) (height : Nat) (index : Option Nat) :
    Except Failure Unit × Disk :=
  let (outcome, d) := d.access kind (some height) index
  let line : LoggedWrite := ⟨now, kind, height, index, succeeded outcome⟩
  (outcome, { d with log := d.log ++ [line], writes := d.writes + 1 })

/-- Whether the write that was just tried is the one during which the run is cancelled. -/
def cancelsNow (d : Disk) : Bool := d.cancelOn = some d.writes

/-- Asks for the latest height, which is `latest` unless the question fails. -/
def readLatest (d : Disk) (latest : Option Nat) : Except Failure (Option Nat) × Disk :=
  let (outcome, d) := d.access .latest none none
  (outcome.map fun _ => latest, d)

end Disk

end Trial

end BlockIngest
