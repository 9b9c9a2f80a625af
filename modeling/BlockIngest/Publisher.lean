import BlockIngest.Counter
import BlockIngest.Event

/-!
# Publishing events

Every subscription has a queue of its own.  Publishing never waits: an event that finds a queue full
is dropped for that subscription alone, and counted.  A subscription ends when it is cancelled by
its number, after which what is queued can still be received, or when its holder gives it up.  One
that was given up stays in the register until it is cancelled or until the next event of its topic.

Holders have handles, and no two handles are the same.  The number that goes with a handle is a word
of 64 bits, taken from a counter that wraps round: after as many subscriptions as there are words
numbers come again.  A cancellation that names such a number takes the first subscription off the
register that has it.

## Main definitions

* `Subscription` — one queue.
* `Publisher`, `Publisher.start`, `Publisher.make` — the register and all queues.
* `Publisher.subscribe`, `Publisher.unsubscribe`, `Publisher.giveUp` — how subscriptions begin and
  end.
* `Publisher.publish` — an event handed to all subscriptions of its topic.
* `Publisher.receive`, `Received` — the oldest event of a queue.
* `Publisher.drain` — all events of a queue.
-/

namespace BlockIngest

/-- One subscription. -/
structure Subscription where
  /-- Its handle: how many subscriptions were made up to it. -/
  id : Nat
  /-- Its number. -/
  number : Nat
  /-- What it is about. -/
  topic : Topic
  /-- Events not yet received, oldest first. -/
  queue : List Event
  /-- The counter of events that found the queue full. -/
  dropped : Nat
  /-- Whether its holder still has it. -/
  held : Bool

/-- All subscriptions. -/
structure Publisher where
  /-- How many events a queue holds. -/
  capacity : Nat
  /-- A queue holds at least one event. -/
  capacity_pos : 0 < capacity
  /-- The counter of events that found a queue full, over all subscriptions. -/
  dropped : Nat
  /-- The counter that the next number is taken from. -/
  next : Nat
  /-- The registered subscriptions to blocks. -/
  blocks : List Nat
  /-- The registered subscriptions to transactions. -/
  transactions : List Nat
  /-- Every subscription ever made, one after the other. -/
  subscriptions : List Subscription

/-- What a holder gets who asks for an event. -/
inductive Received where
  /-- The oldest event. -/
  | event (e : Event)
  /-- There is none yet. -/
  | nothing
  /-- There is none, and there will be none. -/
  | ended

namespace Publisher

/-- The capacity of a queue if none is chosen. -/
def defaultCapacity : Nat := 128

/-- The largest capacity with which a queue can be made. -/
def largestCapacity : Nat := 0x1fffffffffffffff

/-- A publisher without subscriptions. -/
def start (capacity : Nat) (pos : 0 < capacity) : Publisher := ⟨capacity, pos, 0, 1, [], [], []⟩

/-- A publisher without subscriptions, or the complaint that its queues would hold nothing. -/
def make (capacity : Nat) : Except String Publisher :=
  if h : 0 < capacity then .ok (start capacity h)
  else .error "subscription capacity must be greater than zero"

/-- How many subscriptions were ever made. -/
def issued (p : Publisher) : Nat := p.subscriptions.length

/-- The registered subscriptions to a topic. -/
def registered (p : Publisher) : Topic → List Nat
  | .newBlock => p.blocks
  | .newTransaction => p.transactions

/-- Replaces the registered subscriptions to a topic. -/
def register (p : Publisher) (topic : Topic) (ids : List Nat) : Publisher :=
  match topic with
  | .newBlock => { p with blocks := ids }
  | .newTransaction => { p with transactions := ids }

/-- The subscription with a handle. -/
def subscription? (p : Publisher) (id : Nat) : Option Subscription :=
  p.subscriptions.find? (fun s => s.id == id)

/-- The number that goes with a handle. -/
def number? (p : Publisher) (id : Nat) : Option Nat := (p.subscription? id).map Subscription.number

/-- Whether a handle is that of a subscription that its holder still has. -/
def isHeld (p : Publisher) (id : Nat) : Bool :=
  match p.subscription? id with
  | some s => s.held
  | none => false

/-- Changes the subscription with a handle. -/
def modify (p : Publisher) (id : Nat) (f : Subscription → Subscription) : Publisher :=
  { p with subscriptions := p.subscriptions.map fun s => if s.id = id then f s else s }

/-- A new subscription; the answer is its handle.  Its number is taken first: it is gone also if no
queue of that capacity can be made. -/
def subscribe (p : Publisher) (topic : Topic) : Except String Nat × Publisher :=
  let numbered := { p with next := Counter.bump p.next 1 }
  if p.capacity ≤ largestCapacity then
    let id := p.issued + 1
    let opened : Subscription := ⟨id, p.next, topic, [], 0, true⟩
    let p := { numbered with subscriptions := p.subscriptions ++ [opened] }
    (.ok id, p.register topic (p.registered topic ++ [id]))
  else
    (.error s!"a semaphore may not have more than MAX_PERMITS permits ({largestCapacity})",
      numbered)

/-- Removes an element by moving the last one into its place. -/
def swapRemove (ids : List Nat) (id : Nat) : List Nat :=
  let front := ids.takeWhile (· ≠ id)
  let behind := (ids.dropWhile (· ≠ id)).tail
  match behind.getLast? with
  | some last => front ++ last :: behind.dropLast
  | none => front

/-- The first subscription with a number among those registered for a topic. -/
def named? (p : Publisher) (number : Nat) (topic : Topic) : Option (Topic × Nat) :=
  ((p.registered topic).find? fun id => p.number? id == some number).map fun id => (topic, id)

/-- The subscription that a cancellation takes off the register, with its topic.  Both topics are
searched for the number; which of them comes first is not fixed. -/
def struck? (p : Publisher) (number : Nat) (first : Topic) : Option (Topic × Nat) :=
  (p.named? number first).or (p.named? number first.other)

/-- Takes the subscription with a number off the register; the answer says whether there was one. -/
def unsubscribe (p : Publisher) (number : Nat) (first : Topic) : Bool × Publisher :=
  match p.struck? number first with
  | some (topic, id) => (true, p.register topic (swapRemove (p.registered topic) id))
  | none => (false, p)

/-- The holder gives a subscription up, and its queue with it. -/
def giveUp (p : Publisher) (id : Nat) : Publisher :=
  p.modify id fun s => { s with held := false, queue := [] }

/-- How a registered subscription takes an event. -/
inductive Delivery where
  /-- The event was queued. -/
  | queued
  /-- The queue was full. -/
  | full
  /-- The holder has given the subscription up. -/
  | closed
  deriving DecidableEq, Repr

/-- How the subscription with a handle would take an event. -/
def delivery (p : Publisher) (id : Nat) : Delivery :=
  match p.subscription? id with
  | some s => if !s.held then .closed else if s.queue.length < p.capacity then .queued else .full
  | none => .closed

/-- Hands an event to the subscription with a handle. -/
def deliver (p : Publisher) (id : Nat) (e : Event) : Publisher :=
  match p.delivery id with
  | .queued => p.modify id fun s => { s with queue := s.queue ++ [e] }
  | .full => { p.modify id fun s => { s with dropped := Counter.bump s.dropped 1 } with
      dropped := Counter.bump p.dropped 1 }
  | .closed => p

/-- Hands an event to every registered subscription of its topic and takes those off the register
that were given up.  The answer is how many queued it. -/
def publish (p : Publisher) (e : Event) : Nat × Publisher :=
  let ids := p.registered e.topic
  let taken := ids.countP fun id => p.delivery id = .queued
  let p := ids.foldl (fun p id => p.deliver id e) p
  (taken, p.register e.topic (ids.filter p.isHeld))

/-- Publishes events in order. -/
def publishAll (p : Publisher) (events : List Event) : Publisher :=
  events.foldl (fun p e => (p.publish e).2) p

/-- How many registered subscriptions of a topic are still held. -/
def count (p : Publisher) (topic : Topic) : Nat := (p.registered topic).countP p.isHeld

/-- Whether a subscription is on the register. -/
def isRegistered (p : Publisher) (id : Nat) : Bool := decide (id ∈ p.blocks ∨ id ∈ p.transactions)

/-- Takes the oldest event out of a queue.  A queue that is empty has ended if its subscription is
off the register. -/
def receive (p : Publisher) (id : Nat) : Received × Publisher :=
  match p.subscription? id with
  | some s =>
      match s.queue with
      | e :: rest => (.event e, p.modify id fun s => { s with queue := rest })
      | [] => if p.isRegistered id then (.nothing, p) else (.ended, p)
  | none => (.ended, p)

/-- Takes all events out of a queue, oldest first. -/
def drain (p : Publisher) (id : Nat) : List Event × Publisher :=
  match p.subscription? id with
  | some s => (s.queue, p.modify id fun s => { s with queue := [] })
  | none => ([], p)

/-- The counter of the events that a subscription has lost. -/
def lost? (p : Publisher) (id : Nat) : Option Nat := (p.subscription? id).map Subscription.dropped

/-- A publisher in short, for people. -/
def summary (p : Publisher) : String :=
  s!"EventPublisher \x7b capacity: {p.capacity}, dropped_events: {p.dropped}, .. \x7d"

end Publisher

end BlockIngest
