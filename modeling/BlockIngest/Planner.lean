import BlockIngest.Chunk
import BlockIngest.HeightMap

/-!
# Planning chunks

The planner hands out disjoint ranges above the last persisted height, one after the other up to the
chain head.  A range is claimed until its worker completes it or releases it; a released range is
handed out again, unchanged and before fresh work, so that the lowest heights never wait.  When the
head is seen to move backwards, nothing fresh is handed out until it has recovered.

## Main definitions

* `Planner`, `Planner.start`, `Planner.make` — the state and its start.
* `Planner.observe` — an observation of the chain head.
* `Planner.next` — the next range to fetch.
* `Planner.release`, `Planner.complete` — a range given back, and a range done.
-/

namespace BlockIngest

/-- What is planned, claimed and given back. -/
structure Planner where
  /-- The most heights that one range may hold. -/
  maxSize : Nat
  /-- A range holds at least one height. -/
  maxSize_pos : 0 < maxSize
  /-- The highest head accepted so far. -/
  head : Option Nat
  /-- The latest head, if it is below the accepted one. -/
  regressedTo : Option Nat
  /-- The lowest height that was never handed out. -/
  cursor : Nat
  /-- The ranges being fetched, keyed by their lowest height. -/
  claimed : HeightMap ChunkRange
  /-- The ranges given back, keyed by their lowest height. -/
  released : HeightMap ChunkRange

namespace Planner

/-- A planner that starts above `lastPersisted`. -/
def start (lastPersisted maxSize : Nat) (pos : 0 < maxSize) : Planner :=
  ⟨maxSize, pos, none, none, Height.next lastPersisted, .empty, .empty⟩

/-- A planner that starts above `lastPersisted`, or the complaint that its ranges would hold
nothing. -/
def make (lastPersisted maxSize : Nat) : Except String Planner :=
  if h : 0 < maxSize then .ok (start lastPersisted maxSize h)
  else .error "max_chunk_size must be greater than zero"

/-- Whether the latest head was below the accepted one. -/
def regressed (p : Planner) : Bool := p.regressedTo.isSome

/-- Takes note of a head.  One below the accepted head only stops the issue of fresh ranges; the
answer says whether it was such a one. -/
def observe (p : Planner) (head : Nat) : Bool × Planner :=
  match p.head with
  | some known =>
      if head < known then (true, { p with regressedTo := some head })
      else (false, { p with head := some head, regressedTo := none })
  | none => (false, { p with head := some head, regressedTo := none })

/-- The released range that is handed out again: the lowest one, if the node still serves all of
it. -/
def reissue? (p : Planner) : Option ChunkRange :=
  match p.released.first? with
  | some (_, lowest) =>
      match p.regressedTo with
      | some available => if lowest.last ≤ available then some lowest else none
      | none => some lowest
  | none => none

/-- The fresh range at the cursor: as long as it may be, but not past the head. -/
def fresh? (p : Planner) : Option ChunkRange :=
  match p.regressedTo, p.head with
  | none, some head =>
      let last := min (Height.add p.cursor (p.maxSize - 1)) head
      if h : p.cursor ≤ last then some ⟨p.cursor, last, h⟩ else none
  | _, _ => none

/-- Hands out the next range: one that was released, or else a fresh one. -/
def next (p : Planner) : Option ChunkRange × Planner :=
  match p.reissue? with
  | some r =>
      (some r, { p with
        released := p.released.erase r.first
        claimed := p.claimed.insert r.first r })
  | none =>
      match p.fresh? with
      | some r =>
          (some r, { p with cursor := Height.next r.last, claimed := p.claimed.insert r.first r })
      | none => (none, p)

/-- Whether exactly this range is claimed. -/
def isClaimed (p : Planner) (r : ChunkRange) : Bool := p.claimed.find? r.first = some r

/-- Gives a claimed range back; the answer says whether it was claimed. -/
def release (p : Planner) (r : ChunkRange) : Bool × Planner :=
  if p.isClaimed r then
    (true, { p with claimed := p.claimed.erase r.first, released := p.released.insert r.first r })
  else (false, p)

/-- Takes a claimed range off the plan; the answer says whether it was claimed. -/
def complete (p : Planner) (r : ChunkRange) : Bool × Planner :=
  if p.isClaimed r then (true, { p with claimed := p.claimed.erase r.first }) else (false, p)

end Planner

end BlockIngest
