import BlockIngest.Trial.Steps

/-!
# Running a trial

A trial runs the tasks of a run one at a time on a clock that stands still while any of them can go
on.  A task goes on until it waits; tasks that can go on again take their turns first come, first
served.  When all of them wait, the clock moves straight to the next time for which one of them has
set an alarm.  So every trial has one outcome.

## Main definitions

* `Trial.Machine.turn` — the next step of the task whose turn it is.
* `Trial.Machine.settle`, `Trial.Machine.run` — until all tasks wait, and until some time has
  passed.
-/

namespace BlockIngest

namespace Trial

namespace Machine

/-! ### Turns -/

/-- The next step of the task whose turn it is; if it waits, the turn passes to the next one.
Without a task that can go on there is none. -/
def turn (m : Machine) : Option Machine :=
  match m.current with
  | some t =>
      match m.advance t with
      | some next => some (m.rouseAfter next)
      | none => some { m with current := none }
  | none =>
      match m.ready, m.yielded with
      | t :: rest, _ => some { m with current := some t, ready := rest }
      | [], t :: rest => some { m with ready := t :: rest, yielded := [] }
      | [], [] => none

/-- How many steps a trial may take before the clock moves. -/
def patience : Nat := 10000000

/-- At most `fuel` steps. -/
def turns : Nat → Machine → Machine
  | 0, m => m
  | fuel + 1, m =>
      match m.turn with
      | some m => turns fuel m
      | none => m

/-- All tasks go on until each waits. -/
def settle (m : Machine) : Machine := turns patience m

/-- The run is cancelled from outside. -/
def cancel (m : Machine) : Machine := { m with world := m.world.cancelRun }

/-- A change from outside, after which all tasks go on until each waits. -/
def change (m : Machine) (f : Machine → Machine) : Machine := (m.rouseAfter (f m)).settle

/-! ### Time -/

/-- The earliest alarm. -/
def nextAlarm? (m : Machine) : Option Nat := (m.alarms.map Prod.fst).min?

/-- The clock moves to a time, and the tasks whose alarms have come can go on. -/
def ring (m : Machine) (time : Nat) : Machine :=
  let due := (m.alarms.filter fun a => decide (a.1 ≤ time)).map Prod.snd
  let m := { m with now := max m.now time, alarms := m.alarms.filter fun a => decide (time < a.1) }
  due.foldl rouse m

/-- Time passes up to `target`, with at most `fuel` alarms, or until the machine is in a state that
`stop` accepts. -/
def pass (stop : Machine → Bool) (target : Nat) : Nat → Machine → Machine
  | 0, m => m
  | fuel + 1, m =>
      let m := m.settle
      if stop m then m
      else
        match m.nextAlarm? with
        | some time =>
            if time ≤ target then pass stop target fuel (m.ring time)
            else { m with now := max m.now target }
        | none => { m with now := max m.now target }

/-- Time passes. -/
def run (m : Machine) (length : Nat) : Machine :=
  (pass (fun _ => false) (m.now + length) patience m).settle

end Machine

end Trial

end BlockIngest
