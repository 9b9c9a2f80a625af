import BlockIngest.Chunk
import BlockIngest.HeightMap
import BlockIngest.Task

/-!
# The buffer between fetching and committing

Completed chunks arrive in any order and leave in the order of their heights.  A chunk is let in
while there is room; the chunk that is due next is let in even without room, because everything else
waits for it.

Tasks that find the buffer full, or the due chunk absent, wait for a change.  A task listens before
it looks, so that a change between looking and waiting is not missed: an announcement reaches every
task that listens at that moment.

## Main definitions

* `Buffer`, `Buffer.start`, `Buffer.make` — the contents and the tasks that listen.
* `Buffer.listen`, `Buffer.isListening`, `Buffer.forget`, `Buffer.announce` — listening and
  announcing.
* `Buffer.offer`, `Admission` — a chunk that wants in.
* `Buffer.take` — the due chunk taken out, without announcing it.
* `Buffer.clear` — all chunks thrown away.
-/

namespace BlockIngest

/-- Completed chunks on their way to the store. -/
structure Buffer where
  /-- How many chunks are let in before the buffer counts as full. -/
  capacity : Nat
  /-- A buffer without any room would never let work go on. -/
  capacity_pos : 0 < capacity
  /-- The lowest height of the chunk that is due next. -/
  nextCommit : Nat
  /-- The chunks, keyed by their lowest height. -/
  chunks : HeightMap CompletedChunk
  /-- The tasks that no announcement has reached since they began to listen, in that order. -/
  listeners : List TaskId

/-- How the buffer answers a chunk that wants in. -/
inductive Admission where
  /-- The chunk lies below what is due and is dropped. -/
  | stale
  /-- The chunk is let in, over one with the same lowest height. -/
  | stored
  /-- There is no room now. -/
  | full
  deriving DecidableEq, Repr

namespace Buffer

/-- An empty buffer in which the chunk from `nextCommit` on is due. -/
def start (nextCommit capacity : Nat) (pos : 0 < capacity) : Buffer :=
  ⟨capacity, pos, nextCommit, .empty, []⟩

/-- An empty buffer, or the complaint that it would have no room. -/
def make (nextCommit capacity : Nat) : Except String Buffer :=
  if h : 0 < capacity then .ok (start nextCommit capacity h)
  else .error "max_chunks must be greater than zero"

/-- How many chunks are in the buffer. -/
def size (b : Buffer) : Nat := b.chunks.size

/-- Whether there is room for a further chunk. -/
def hasRoom (b : Buffer) : Bool := b.chunks.size < b.capacity

/-! ### Listening -/

/-- From now on the next announcement reaches `t`. -/
def listen (b : Buffer) (t : TaskId) : Buffer :=
  if t ∈ b.listeners then b else { b with listeners := b.listeners ++ [t] }

/-- Whether no announcement has reached `t` since it began to listen. -/
def isListening (b : Buffer) (t : TaskId) : Bool := decide (t ∈ b.listeners)

/-- No announcement is meant for `t` any longer. -/
def forget (b : Buffer) (t : TaskId) : Buffer := { b with listeners := b.listeners.filter (· ≠ t) }

/-- Announces a change to every task that listens. -/
def announce (b : Buffer) : Buffer := { b with listeners := [] }

/-! ### Contents -/

/-- How a chunk that wants in is answered. -/
def admission (b : Buffer) (c : CompletedChunk) : Admission :=
  if c.range.first < b.nextCommit then .stale
  else if b.hasRoom ∨ c.range.first = b.nextCommit then .stored
  else .full

/-- Answers a chunk that wants in, and announces the change if it is let in. -/
def offer (b : Buffer) (c : CompletedChunk) : Admission × Buffer :=
  match b.admission c with
  | .stored => (.stored, { b with chunks := b.chunks.insert c.range.first c }.announce)
  | answer => (answer, b)

/-- Takes the due chunk out, if it is there.  The next one is due right above its range. -/
def take (b : Buffer) : Option CompletedChunk × Buffer :=
  match b.chunks.find? b.nextCommit with
  | some c =>
      (some c, { b with
        chunks := b.chunks.erase b.nextCommit
        nextCommit := Height.next c.range.last })
  | none => (none, b)

/-- Throws all chunks away, announces it, and says how many there were. -/
def clear (b : Buffer) : Nat × Buffer := (b.size, { b with chunks := .empty }.announce)

end Buffer

end BlockIngest
