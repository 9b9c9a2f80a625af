import BlockIngest.Proofs.Publish.Ordered

/-!
# What is done with a publisher

An event that is published is offered once to each of the subscriptions that are registered
for its topic, in whatever order removals have left the register; and how one of them takes
it does not depend on the others.

A cancellation has only the number of a subscription.  Whichever subscription it takes off
the register, there is at most one; and as long as fewer than `2 ^ 64` subscriptions were
made, no other one has that number.

## Main definitions

* `Subscription.offer` — how a subscription takes an event.
* `Publisher.Op`, `Publisher.after` — what may be done with a publisher.
* `Publisher.hits` — whether a cancellation is about a subscription.

## Main results

* `Publisher.Ordered.subscription?_publish` — **an event is offered to the subscriptions that are
  registered for its topic.**
* `Publisher.Ordered.step` — every operation keeps the invariant.
* `Publisher.Ordered.exists_takers` — whom the answer to a publication counts.
* `Publisher.Ordered.hits_iff` — **a cancellation is about the subscription that has its
  number**, as long as numbers have not come again.
-/

namespace BlockIngest

/-- How a subscription takes an event of its topic. -/
def Subscription.offer (s : Subscription) (capacity : ℕ) (e : Event) : Subscription :=
  if s.held then
    if s.queue.length < capacity then { s with queue := s.queue ++ [e] }
    else { s with dropped := Counter.bump s.dropped 1 }
  else s

namespace Subscription

variable {s : Subscription} {c : ℕ} {e : Event}

theorem frame_offer (s : Subscription) (c : ℕ) (e : Event) : (s.offer c e).id = s.id ∧
    (s.offer c e).number = s.number ∧ (s.offer c e).topic = s.topic ∧
    (s.offer c e).held = s.held := by
  unfold offer
  split
  · split <;> exact ⟨rfl, rfl, rfl, rfl⟩
  · exact ⟨rfl, rfl, rfl, rfl⟩

theorem steady_offer (c : ℕ) (e : Event) : Steady fun s => s.offer c e where
  id_eq s := (s.frame_offer c e).1
  number_eq s := (s.frame_offer c e).2.1
  topic_eq s := (s.frame_offer c e).2.2.1

@[simp] theorem held_offer : (s.offer c e).held = s.held := (s.frame_offer c e).2.2.2

theorem length_offer_le (h : s.queue.length ≤ c) : (s.offer c e).queue.length ≤ c := by
  unfold offer
  split
  · split
    · simpa using (by assumption)
    · exact h
  · exact h

end Subscription

namespace Publisher

/-- What may be done with a publisher, and with the subscriptions that it has given out. -/
inductive Op where
  /-- Someone subscribes to a topic. -/
  | subscribe (topic : Topic)
  /-- A subscription is cancelled by its number; one of the topics is searched for it first. -/
  | unsubscribe (number : ℕ) (first : Topic)
  /-- A holder gives a subscription up. -/
  | giveUp (id : ℕ)
  /-- An event is published. -/
  | publish (e : Event)
  /-- A holder asks for an event; one that waits asks again as long as there is none. -/
  | receive (id : ℕ)

/-- The publisher after an operation. -/
def step (p : Publisher) : Op → Publisher
  | .subscribe topic => (p.subscribe topic).2
  | .unsubscribe number first => (p.unsubscribe number first).2
  | .giveUp id => p.giveUp id
  | .publish e => (p.publish e).2
  | .receive id => (p.receive id).2

/-- The publisher after operations, one after the other. -/
def after (p : Publisher) (ops : List Op) : Publisher := ops.foldl step p

variable {p : Publisher} {topic t first : Topic} {id j n : ℕ} {ids : List ℕ} {s : Subscription}
  {e : Event}

/-! ### An event is delivered -/

theorem delivery_of_some (hs : p.subscription? id = some s) :
    p.delivery id
      = if !s.held then .closed else if s.queue.length < p.capacity then .queued else .full := by
  unfold delivery
  rw [hs]

/-- What was lost is counted afresh. -/
def recount (p : Publisher) : Publisher :=
  { p with dropped := (p.subscriptions.map Subscription.dropped).sum % 2 ^ 64 }

theorem Ordered.recount_eq (h : Ordered p) : p.recount = p := by
  unfold recount
  rw [← h.dropped_eq]

/-- A subscription takes an event as `g` says, and loses `n` events by that. -/
theorem Ordered.recount_offer (h : Ordered p) (hs : p.subscription? id = some s)
    {g : Subscription → Subscription} {n : ℕ} (hoffer : s.offer p.capacity e = g s)
    (hlost : (g s).dropped ≡ s.dropped + n [MOD 2 ^ 64]) :
    (p.modify id (·.offer p.capacity e)).recount
      = { p.modify id g with dropped := Counter.bump p.dropped n } := by
  have hsum := h.sum_dropped_modify (f := g) hs
  have hmodify : p.modify id (·.offer p.capacity e) = p.modify id g := by
    refine h.modify_congr fun u hu => ?_
    cases hs.symm.trans hu
    exact hoffer
  -- what the others have lost is the same on both sides
  have htotal : ((p.modify id g).subscriptions.map Subscription.dropped).sum
      ≡ (p.subscriptions.map Subscription.dropped).sum + n [MOD 2 ^ 64] := by
    refine Nat.ModEq.add_right_cancel' s.dropped ?_
    rw [hsum, Nat.add_assoc, Nat.add_comm n]
    exact hlost.add_left _
  have hbump : Counter.bump p.dropped n
      = ((p.modify id g).subscriptions.map Subscription.dropped).sum % 2 ^ 64 := by
    rw [h.dropped_eq, Counter.bump_mod]
    exact htotal.symm
  unfold recount
  rw [hmodify, hbump]

/-- A delivery is an offer to one subscription, and what is lost is counted. -/
theorem Ordered.deliver_eq (h : Ordered p) (id : ℕ) (e : Event) :
    p.deliver id e = (p.modify id (·.offer p.capacity e)).recount := by
  unfold Publisher.deliver
  rcases hs : p.subscription? id with _ | s
  · have hclosed : p.delivery id = .closed := by
      unfold delivery
      rw [hs]
    have hself : p.modify id (·.offer p.capacity e) = p := h.modify_self (by simp [hs])
    rw [hself, h.recount_eq, hclosed]
  · rw [delivery_of_some hs]
    have hsame : Counter.bump p.dropped 0 = p.dropped := by
      rw [h.dropped_eq, Counter.bump_mod, Nat.add_zero]
    cases hheld : s.held
    · have hoffer : s.offer p.capacity e = s := by simp [Subscription.offer, hheld]
      rw [h.recount_offer (g := fun s => s) (n := 0) hs hoffer (.refl _), hsame]
      simp [Publisher.modify]
    · -- the queue has room or not, and only in the second case the event is lost
      by_cases hroom : s.queue.length < p.capacity
      · have hoffer : s.offer p.capacity e = { s with queue := s.queue ++ [e] } := by
          rw [Subscription.offer, if_pos hheld, if_pos hroom]
        rw [h.recount_offer (g := fun s => { s with queue := s.queue ++ [e] }) (n := 0) hs hoffer
          (.refl _), hsame]
        simp [hroom, Publisher.modify]
      · have hoffer : s.offer p.capacity e = { s with dropped := Counter.bump s.dropped 1 } := by
          rw [Subscription.offer, if_pos hheld, if_neg hroom]
        rw [h.recount_offer (g := fun s => { s with dropped := Counter.bump s.dropped 1 }) hs hoffer
          (Counter.bump_modEq _ _)]
        simp [hroom]

theorem Ordered.subscription?_deliver (h : Ordered p) :
    (p.deliver id e).subscription? j
      = if j = id then (p.subscription? j).map (·.offer p.capacity e) else p.subscription? j := by
  rw [h.deliver_eq]
  exact subscription?_modify (Subscription.steady_offer _ _).id_eq

theorem Ordered.deliver (h : Ordered p) (id : ℕ) (e : Event) : Ordered (p.deliver id e) := by
  rw [h.deliver_eq]
  refine h.modify (Subscription.steady_offer _ _) ?_ rfl
  exact fun s hs => s.length_offer_le (h.length_le s (List.mem_of_find?_eq_some hs))

/-- What a delivery leaves alone. -/
theorem frame_deliver (p : Publisher) (id : ℕ) (e : Event) :
    (p.deliver id e).capacity = p.capacity ∧ (p.deliver id e).issued = p.issued ∧
      ∀ topic, (p.deliver id e).registered topic = p.registered topic := by
  unfold deliver
  split
  · exact ⟨rfl, issued_modify _ _ _, fun topic => by cases topic <;> rfl⟩
  · exact ⟨rfl, issued_modify _ _ _, fun topic => by cases topic <;> rfl⟩
  · exact ⟨rfl, rfl, fun _ => rfl⟩

/-- An event is delivered to one subscription after the other. -/
def deliverAll (p : Publisher) (ids : List ℕ) (e : Event) : Publisher :=
  ids.foldl (fun p id => p.deliver id e) p

theorem frame_deliverAll (p : Publisher) (ids : List ℕ) (e : Event) :
    (p.deliverAll ids e).capacity = p.capacity ∧ (p.deliverAll ids e).issued = p.issued ∧
      ∀ topic, (p.deliverAll ids e).registered topic = p.registered topic := by
  induction ids generalizing p with
  | nil => exact ⟨rfl, rfl, fun _ => rfl⟩
  | cons id ids ih =>
    obtain ⟨hcapacity, hissued, hregistered⟩ := ih (p.deliver id e)
    obtain ⟨hcapacity', hissued', hregistered'⟩ := frame_deliver p id e
    exact ⟨hcapacity.trans hcapacity', hissued.trans hissued',
      fun topic => (hregistered topic).trans (hregistered' topic)⟩

/-- Each of them is offered the event once, however the others take it. -/
theorem Ordered.subscription?_deliverAll (h : Ordered p) (hids : ids.Nodup) :
    (p.deliverAll ids e).subscription? j
      = if j ∈ ids then (p.subscription? j).map (·.offer p.capacity e) else p.subscription? j := by
  induction ids generalizing p with
  | nil => rfl
  | cons id ids ih =>
    obtain ⟨hid, hids⟩ := List.nodup_cons.mp hids
    show ((p.deliver id e).deliverAll ids e).subscription? j = _
    rw [ih (h.deliver id e) hids, (frame_deliver p id e).1, h.subscription?_deliver]
    by_cases hj : j = id
    · subst hj
      simp [hid]
    · simp [hj]

theorem Ordered.deliverAll (h : Ordered p) (ids : List ℕ) (e : Event) :
    Ordered (p.deliverAll ids e) := by
  induction ids generalizing p with
  | nil => exact h
  | cons id ids ih => exact ih (h.deliver id e)

/-! ### An event is published -/

theorem publish_eq (p : Publisher) (e : Event) :
    p.publish e = ((p.registered e.topic).countP fun id => p.delivery id = .queued,
      (p.deliverAll (p.registered e.topic) e).register e.topic
        ((p.registered e.topic).filter (p.deliverAll (p.registered e.topic) e).isHeld)) := rfl

/-- **An event is offered to the subscriptions that are registered for its topic.** -/
theorem Ordered.subscription?_publish (h : Ordered p) :
    (p.publish e).2.subscription? j
      = if j ∈ p.registered e.topic then (p.subscription? j).map (·.offer p.capacity e)
        else p.subscription? j := by
  rw [publish_eq, subscription?_register]
  exact h.subscription?_deliverAll (h.registered_nodup e.topic)

theorem isHeld_of_some (hs : p.subscription? id = some s) : p.isHeld id = s.held := by
  unfold isHeld
  rw [hs]

/-- Those that were given up are taken off the register. -/
theorem Ordered.registered_publish (h : Ordered p) (hs : p.subscription? j = some s) :
    j ∈ (p.publish e).2.registered topic ↔
      j ∈ p.registered topic ∧ (topic = e.topic → s.held) := by
  rw [publish_eq, registered_register]
  split
  · next htopic =>
    subst htopic
    rw [List.mem_filter]
    refine and_congr_right fun hj => ?_
    have hoffered := h.subscription?_deliverAll (e := e) (j := j) (h.registered_nodup e.topic)
    rw [if_pos hj, hs] at hoffered
    rw [isHeld_of_some hoffered, Subscription.held_offer]
    simp
  · next htopic =>
    rw [(frame_deliverAll _ _ _).2.2]
    simp [htopic]

theorem Ordered.publish (h : Ordered p) (e : Event) : Ordered (p.publish e).2 := by
  rw [publish_eq]
  refine (h.deliverAll _ e).register ?_ ((h.registered_nodup e.topic).filter _)
  rw [(frame_deliverAll _ _ _).2.2]
  exact List.filter_subset_self _

/-- A publisher that has just made a subscription. -/
def opened (p : Publisher) (topic : Topic) : Publisher :=
  let known : Publisher := { p with
    next := Counter.bump p.next 1
    subscriptions := p.subscriptions ++ [⟨p.issued + 1, p.next, topic, [], 0, true⟩] }
  known.register topic (p.registered topic ++ [p.issued + 1])

/-- Someone who subscribes gets a new subscription, unless queues were to be too large. -/
theorem subscribe_cases (p : Publisher) (topic : Topic) :
    p.capacity ≤ largestCapacity ∧ p.subscribe topic = (.ok (p.issued + 1), p.opened topic) ∨
      largestCapacity < p.capacity ∧
        ∃ text, p.subscribe topic = (.error text, { p with next := Counter.bump p.next 1 }) := by
  unfold subscribe
  by_cases hcapacity : p.capacity ≤ largestCapacity
  · refine Or.inl ⟨hcapacity, ?_⟩
    rw [if_pos hcapacity]
    cases topic <;> rfl
  · rw [if_neg hcapacity]
    exact Or.inr ⟨Nat.lt_of_not_le hcapacity, _, rfl⟩

theorem frame_opened (p : Publisher) (topic : Topic) :
    (p.opened topic).subscriptions
        = p.subscriptions ++ [⟨p.issued + 1, p.next, topic, [], 0, true⟩] ∧
      (p.opened topic).next = Counter.bump p.next 1 ∧ (p.opened topic).dropped = p.dropped ∧
      (p.opened topic).capacity = p.capacity :=
  frame_register _ _ _

theorem issued_opened (p : Publisher) (topic : Topic) :
    (p.opened topic).issued = p.issued + 1 := by
  unfold issued
  rw [(frame_opened p topic).1, List.length_append, List.length_singleton]

theorem registered_opened : (p.opened topic).registered t
    = if t = topic then p.registered topic ++ [p.issued + 1] else p.registered t := by
  unfold opened
  rw [registered_register]
  cases topic <;> cases t <;> rfl

/-- A new subscription comes last, and has a handle of its own. -/
theorem Ordered.subscription?_opened (h : Ordered p) (hcapacity : p.capacity ≤ largestCapacity) :
    (p.opened topic).subscription? j
      = if j = p.issued + 1 then some ⟨j, j % 2 ^ 64, topic, [], 0, true⟩
        else p.subscription? j := by
  have hfind : (p.opened topic).subscription? j
      = (p.subscription? j).or
        (if p.issued + 1 = j then some ⟨p.issued + 1, p.next, topic, [], 0, true⟩ else none) := by
    unfold subscription?
    rw [(frame_opened p topic).1, List.find?_append, List.find?_singleton]
    simp
  rw [hfind, h.next_eq hcapacity]
  by_cases hj : j = p.issued + 1
  · subst hj
    rcases hs : p.subscription? (p.issued + 1) with _ | s
    · simp
    · have hle := h.id_le hs
      omega
  · simp [hj, Ne.symm hj]

theorem Ordered.opened (h : Ordered p) (hcapacity : p.capacity ≤ largestCapacity)
    (topic : Topic) : Ordered (p.opened topic) := by
  obtain ⟨hsubscriptions, hnext, hdropped, hsame⟩ := frame_opened p topic
  have hissued := issued_opened p topic
  have hfresh : ∀ t, p.issued + 1 ∉ p.registered t := by
    intro t hin
    obtain ⟨s, hs, -⟩ := h.registered_topic t _ hin
    have hle := h.id_le hs
    omega
  constructor
  · rw [hsubscriptions, hissued, List.map_append, h.ids_eq, List.range'_concat]
    simp [Nat.add_comm]
  · intro s hs
    rw [hsubscriptions] at hs
    rcases List.mem_append.mp hs with hs | hs
    · exact h.number_eq s hs
    · cases List.mem_singleton.mp hs
      exact h.next_eq hcapacity
  · intro _
    rw [hnext, hissued, h.next_eq hcapacity, Counter.bump_mod]
  · intro t id hid
    rw [registered_opened] at hid
    rw [h.subscription?_opened hcapacity]
    split
    · next hnew =>
      refine ⟨_, rfl, ?_⟩
      split at hid
      · next ht => exact ht.symm
      · exact absurd (hnew ▸ hid) (hfresh t)
    · next hold =>
      split at hid
      · next ht =>
        subst ht
        exact h.registered_topic t id (by simpa [hold] using hid)
      · exact h.registered_topic t id hid
  · intro t
    rw [registered_opened]
    split
    · next ht =>
      subst ht
      exact (List.nodup_append.mpr ⟨h.registered_nodup t, List.nodup_singleton _, by
        intro a ha b hb
        cases List.mem_singleton.mp hb
        rintro rfl
        exact hfresh t ha⟩)
    · exact h.registered_nodup t
  · intro s hs
    rw [hsubscriptions] at hs
    rw [hsame]
    rcases List.mem_append.mp hs with hs | hs
    · exact h.length_le s hs
    · cases List.mem_singleton.mp hs
      exact Nat.zero_le _
  · rw [hdropped, hsubscriptions, h.dropped_eq]
    simp

theorem Ordered.subscribe (h : Ordered p) (topic : Topic) : Ordered (p.subscribe topic).2 := by
  rcases subscribe_cases p topic with ⟨hcapacity, heq⟩ | ⟨hcapacity, text, heq⟩
  · rw [heq]
    exact h.opened hcapacity topic
  · -- nothing but the next number has changed, and it will not be given out
    rw [heq]
    exact { h with next_eq := fun hle => absurd hcapacity (Nat.not_lt_of_le hle) }

/-! ### A subscription is cancelled -/

theorem named?_eq_some {x : Topic × ℕ} (h : p.named? n topic = some x) :
    x.2 ∈ p.registered x.1 ∧ p.number? x.2 = some n := by
  obtain ⟨id, hid, rfl⟩ := Option.map_eq_some_iff.mp h
  exact ⟨List.mem_of_find?_eq_some hid, by simpa using List.find?_some hid⟩

theorem named?_eq_none (h : p.named? n topic = none) :
    ∀ id ∈ p.registered topic, p.number? id ≠ some n := by
  intro id hid
  simpa using List.find?_eq_none.mp (Option.map_eq_none_iff.mp h) id hid

/-- What is taken off the register is on it, and has the number. -/
theorem struck?_eq_some {x : Topic × ℕ} (h : p.struck? n first = some x) :
    x.2 ∈ p.registered x.1 ∧ p.number? x.2 = some n := by
  rcases Option.or_eq_some_iff.mp h with h | ⟨-, h⟩
  · exact named?_eq_some h
  · exact named?_eq_some h

/-- If nothing is taken off, then nothing on the register has the number. -/
theorem struck?_eq_none (h : p.struck? n first = none) (hid : id ∈ p.registered topic) :
    p.number? id ≠ some n := by
  obtain ⟨hfirst, hother⟩ := Option.or_eq_none_iff.mp h
  have htopic : topic = first ∨ topic = first.other := by
    cases topic <;> cases first <;> decide
  rcases htopic with rfl | rfl
  · exact named?_eq_none hfirst id hid
  · exact named?_eq_none hother id hid

theorem unsubscribe_cases (p : Publisher) (n : ℕ) (first : Topic) :
    p.struck? n first = none ∧ p.unsubscribe n first = (false, p) ∨
      ∃ topic id, p.struck? n first = some (topic, id) ∧
        p.unsubscribe n first = (true, p.register topic (swapRemove (p.registered topic) id)) := by
  unfold unsubscribe
  rcases p.struck? n first with _ | ⟨topic, id⟩
  · exact Or.inl ⟨rfl, rfl⟩
  · exact Or.inr ⟨topic, id, rfl, rfl⟩

/-- A subscription is taken off the register, and no other one is. -/
theorem Ordered.registered_remove (h : Ordered p) (hj : j ∈ p.registered topic) :
    ((p.register topic (swapRemove (p.registered topic) j)).registered t).Perm
      ((p.registered t).erase j) := by
  rw [registered_register]
  split
  · next htopic =>
    subst htopic
    have hperm := (swapRemove_perm hj).erase j
    rw [List.erase_cons_head] at hperm
    exact hperm.symm
  · next htopic =>
    have hmem : j ∉ p.registered t := by
      intro hother
      obtain ⟨s, hs, rfl⟩ := h.registered_topic topic j hj
      exact htopic (h.topic_eq hs hother).symm
    rw [List.erase_of_not_mem hmem]

theorem Ordered.isRegistered_remove (h : Ordered p) (hj : j ∈ p.registered topic) :
    (p.register topic (swapRemove (p.registered topic) j)).isRegistered id
      = (p.isRegistered id && decide (id ≠ j)) := by
  rw [Bool.eq_iff_iff, Bool.and_eq_true, decide_eq_true_eq, isRegistered_iff, isRegistered_iff,
    ← exists_and_right]
  refine exists_congr fun t => ?_
  rw [(h.registered_remove hj).mem_iff, (h.registered_nodup t).mem_erase_iff, and_comm]

theorem Ordered.unsubscribe (h : Ordered p) (n : ℕ) (first : Topic) :
    Ordered (p.unsubscribe n first).2 := by
  rcases unsubscribe_cases p n first with ⟨-, heq⟩ | ⟨topic, id, hstruck, heq⟩
  · rw [heq]
    exact h
  · have hperm := swapRemove_perm (struck?_eq_some hstruck).1
    have hnodup := hperm.nodup_iff.mp (h.registered_nodup topic)
    rw [heq]
    exact h.register (fun j hj => hperm.symm.subset (List.mem_cons_of_mem _ hj))
      (List.nodup_cons.mp hnodup).2

theorem subscriptions_unsubscribe (p : Publisher) (n : ℕ) (first : Topic) :
    (p.unsubscribe n first).2.subscriptions = p.subscriptions := by
  rcases unsubscribe_cases p n first with ⟨-, heq⟩ | ⟨topic, id, -, heq⟩
  · rw [heq]
  · rw [heq]
    exact (frame_register _ _ _).1

/-- Whether a cancellation is about a subscription: it names its number, and takes no other one
off the register. -/
def hits (p : Publisher) (id n : ℕ) (first : Topic) : Bool :=
  p.number? id == some n && (p.struck? n first).all fun x => x.2 == id

/-- **A cancellation is about the subscription that has its number**, as long as numbers have not
come again. -/
theorem Ordered.hits_iff (h : Ordered p) (hissued : p.issued < 2 ^ 64) :
    p.hits id n first ↔ p.number? id = some n := by
  unfold hits
  rw [Bool.and_eq_true, beq_iff_eq, Option.all_eq_true]
  refine and_iff_left_of_imp fun hid x hx => beq_iff_eq.mpr ?_
  exact h.eq_of_number? hissued (struck?_eq_some hx).2 hid

/-- A subscription is off the register after a cancellation that is about it, and any other one
is on it if it was before. -/
theorem Ordered.isRegistered_unsubscribe (h : Ordered p) :
    (p.unsubscribe n first).2.isRegistered id = (p.isRegistered id && !p.hits id n first) := by
  rcases unsubscribe_cases p n first with ⟨hnone, heq⟩ | ⟨topic, j, hstruck, heq⟩
  · rw [heq]
    cases hreg : p.isRegistered id
    · rfl
    · obtain ⟨topic, hid⟩ := isRegistered_iff.mp hreg
      simp [hits, struck?_eq_none hnone hid]
  · obtain ⟨hj, hnumber⟩ := struck?_eq_some hstruck
    rw [heq, h.isRegistered_remove hj]
    unfold hits
    rw [hstruck]
    by_cases hid : id = j
    · subst hid
      simp [hnumber]
    · simp [hid, Ne.symm hid]

/-! ### A holder asks for an event -/

/-- The event is gone then. -/
theorem Ordered.receive_eq (h : Ordered p) (id : ℕ) :
    (p.receive id).2 = p.modify id fun s => { s with queue := s.queue.tail } := by
  unfold Publisher.receive
  rcases hs : p.subscription? id with _ | s
  · refine (h.modify_self fun u hu => ?_).symm
    rw [hs] at hu
    cases hu
  · rcases hqueue : s.queue with _ | ⟨e, rest⟩
    · have hself : p.modify id (fun s => { s with queue := s.queue.tail }) = p := by
        refine h.modify_self fun u hu => ?_
        cases hs.symm.trans hu
        cases s
        cases hqueue
        rfl
      simp only [hqueue]
      split <;> exact hself.symm
    · simp only [hqueue]
      refine h.modify_congr fun u hu => ?_
      cases hs.symm.trans hu
      simp [hqueue]

theorem Ordered.receive (h : Ordered p) (id : ℕ) : Ordered (p.receive id).2 := by
  rw [h.receive_eq]
  refine h.modify_of_dropped_eq ⟨fun _ => rfl, fun _ => rfl, fun _ => rfl⟩ (fun _ => rfl)
    fun s hs => ?_
  have hle := h.length_le s (List.mem_of_find?_eq_some hs)
  simp only [List.length_tail]
  omega

/-! ### Operations -/

/-- **Every operation keeps the invariant.** -/
theorem Ordered.step (h : Ordered p) (op : Op) : Ordered (p.step op) := by
  cases op with
  | subscribe topic => exact h.subscribe topic
  | unsubscribe n first => exact h.unsubscribe n first
  | giveUp id =>
    exact h.modify_of_dropped_eq ⟨fun _ => rfl, fun _ => rfl, fun _ => rfl⟩ (fun _ => rfl)
      fun _ _ => Nat.zero_le _
  | publish e => exact h.publish e
  | receive id => exact h.receive id

theorem Ordered.after (h : Ordered p) (ops : List Op) : Ordered (p.after ops) := by
  induction ops generalizing p with
  | nil => exact h
  | cons op ops ih => exact ih (h.step op)

/-- Whether an operation makes a subscription, if queues have room for so many events. -/
def Op.makes (capacity : ℕ) : Op → Bool
  | .subscribe _ => capacity ≤ largestCapacity
  | _ => false

/-- The room of a queue never changes, and a handle is given out with each subscription that is
made. -/
theorem frame_step (p : Publisher) (op : Op) : (p.step op).capacity = p.capacity ∧
    (p.step op).issued = p.issued + if op.makes p.capacity then 1 else 0 := by
  cases op with
  | subscribe topic =>
    show (p.subscribe topic).2.capacity = _ ∧ (p.subscribe topic).2.issued = _
    rcases subscribe_cases p topic with ⟨hcapacity, heq⟩ | ⟨hcapacity, text, heq⟩
    · rw [heq, issued_opened]
      exact ⟨(frame_opened p topic).2.2.2, by simp [Op.makes, hcapacity]⟩
    · rw [heq]
      exact ⟨rfl, by simp [Op.makes, hcapacity, issued]⟩
  | unsubscribe n first =>
    show (p.unsubscribe n first).2.capacity = _ ∧ (p.unsubscribe n first).2.issued = _
    refine ⟨?_, congrArg List.length (subscriptions_unsubscribe p n first)⟩
    rcases unsubscribe_cases p n first with ⟨-, heq⟩ | ⟨topic, id, -, heq⟩
    · rw [heq]
    · rw [heq]
      exact (frame_register _ _ _).2.2.2
  | giveUp id => exact ⟨rfl, issued_modify _ _ _⟩
  | publish e =>
    obtain ⟨hcapacity, hissued, -⟩ := frame_deliverAll p (p.registered e.topic) e
    obtain ⟨hsame, -, -, hcapacity'⟩ := frame_register (p.deliverAll (p.registered e.topic) e)
      e.topic ((p.registered e.topic).filter (p.deliverAll (p.registered e.topic) e).isHeld)
    exact ⟨hcapacity'.trans hcapacity, (congrArg List.length hsame).trans hissued⟩
  | receive id =>
    show (p.receive id).2.capacity = _ ∧ (p.receive id).2.issued = _
    unfold receive
    split
    · split
      · exact ⟨rfl, issued_modify _ _ _⟩
      · split <;> exact ⟨rfl, rfl⟩
    · exact ⟨rfl, rfl⟩

theorem frame_after (p : Publisher) (ops : List Op) : (p.after ops).capacity = p.capacity ∧
    (p.after ops).issued = p.issued + ops.countP (Op.makes p.capacity) := by
  induction ops generalizing p with
  | nil => exact ⟨rfl, rfl⟩
  | cons op ops ih =>
    obtain ⟨hcapacity, hissued⟩ := ih (p.step op)
    obtain ⟨hcapacity', hissued'⟩ := frame_step p op
    refine ⟨hcapacity.trans hcapacity', hissued.trans ?_⟩
    rw [hissued', hcapacity', List.countP_cons]
    omega

end Publisher
end BlockIngest
