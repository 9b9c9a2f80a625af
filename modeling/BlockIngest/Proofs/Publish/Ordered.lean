import BlockIngest.Proofs.Counter
import BlockIngest.Publisher
import Mathlib.Algebra.Ring.Nat
import Mathlib.Data.List.Nodup

/-!
# What a publisher keeps

A handle is given out once, and stands for one subscription ever after, also when that
is cancelled or given up.  What is registered under a topic are subscriptions of that topic,
each of them once, in whatever order removals have left the register.  The number of a
subscription is its handle, wrapped round.

What operations do is made of two changes: some subscriptions leave the register, and a
subscription is changed in a way that leaves alone which one it is.  Neither breaks this.

## Main definitions

* `Subscription.Steady` — the changes of a subscription.
* `Publisher.Ordered` — the invariant.

## Main results

* `Publisher.swapRemove_perm` — a removal takes one subscription off the register.
* `Publisher.Ordered.register`, `Publisher.Ordered.modify` — **both changes keep the invariant.**
-/

namespace BlockIngest

/-- A change that leaves alone which subscription it is. -/
structure Subscription.Steady (f : Subscription → Subscription) : Prop where
  id_eq : ∀ s, (f s).id = s.id
  number_eq : ∀ s, (f s).number = s.number
  topic_eq : ∀ s, (f s).topic = s.topic

namespace Publisher

variable {p : Publisher} {topic t : Topic} {id j n : ℕ} {ids : List ℕ} {s : Subscription}

/-! ### Looking up -/

/-- A change that leaves handles alone is found where it was made. -/
theorem subscription?_map {g : Subscription → Subscription} (hg : ∀ s, (g s).id = s.id)
    (p : Publisher) (j : ℕ) :
    { p with subscriptions := p.subscriptions.map g }.subscription? j
      = (p.subscription? j).map g := by
  have hid : (fun s : Subscription => s.id == j) ∘ g = fun s => s.id == j := by
    funext s
    simp [hg]
  unfold subscription?
  rw [List.find?_map, hid]

theorem id_of_subscription? (h : p.subscription? id = some s) : s.id = id := by
  simpa using List.find?_some h

theorem subscription?_modify {f : Subscription → Subscription} (hf : ∀ s, (f s).id = s.id) :
    (p.modify id f).subscription? j
      = if j = id then (p.subscription? j).map f else p.subscription? j := by
  have hg : ∀ s, (if s.id = id then f s else s : Subscription).id = s.id := by
    intro s
    split
    · exact hf s
    · rfl
  refine (subscription?_map hg p j).trans ?_
  rcases hs : p.subscription? j with _ | s
  · simp
  · rw [Option.map_some, id_of_subscription? hs]
    split <;> rfl

theorem registered_register :
    (p.register topic ids).registered t = if t = topic then ids else p.registered t := by
  cases topic <;> cases t <;> rfl

@[simp] theorem subscription?_register :
    (p.register topic ids).subscription? j = p.subscription? j := by
  cases topic <;> rfl

theorem issued_modify (p : Publisher) (id : ℕ) (f : Subscription → Subscription) :
    (p.modify id f).issued = p.issued := List.length_map _

theorem frame_register (p : Publisher) (topic : Topic) (ids : List ℕ) :
    (p.register topic ids).subscriptions = p.subscriptions ∧
      (p.register topic ids).next = p.next ∧ (p.register topic ids).dropped = p.dropped ∧
      (p.register topic ids).capacity = p.capacity := by
  cases topic <;> exact ⟨rfl, rfl, rfl, rfl⟩

theorem isRegistered_iff : p.isRegistered id ↔ ∃ topic, id ∈ p.registered topic := by
  unfold isRegistered
  rw [decide_eq_true_eq]
  constructor
  · rintro (h | h)
    · exact ⟨.newBlock, h⟩
    · exact ⟨.newTransaction, h⟩
  · rintro ⟨_ | _, h⟩
    · exact Or.inl h
    · exact Or.inr h

theorem exists_dropWhile (h : id ∈ ids) : ∃ behind, ids.dropWhile (· ≠ id) = id :: behind := by
  induction ids with
  | nil => cases h
  | cons x xs ih =>
    by_cases hx : x = id
    · exact ⟨xs, by simp [hx]⟩
    · obtain ⟨behind, hbehind⟩ := ih ((List.mem_cons.mp h).resolve_left (Ne.symm hx))
      exact ⟨behind, by simpa [hx] using hbehind⟩

/-- Whatever a removal does to the order, it takes one subscription off the register. -/
theorem swapRemove_perm (h : id ∈ ids) : ids.Perm (id :: swapRemove ids id) := by
  obtain ⟨behind, hbehind⟩ := exists_dropWhile h
  have hids : ids = ids.takeWhile (· ≠ id) ++ id :: behind := by
    rw [← hbehind, List.takeWhile_append_dropWhile]
  refine (List.Perm.of_eq hids).trans (List.perm_middle.trans (List.Perm.cons id ?_))
  unfold swapRemove
  simp only [hbehind, List.tail_cons]
  rcases List.eq_nil_or_concat behind with rfl | ⟨front, last, rfl⟩
  · rw [List.append_nil]
    exact .refl _
  · simp only [List.concat_eq_append, List.getLast?_concat, List.dropLast_concat]
    exact List.Perm.append_left _ (List.perm_append_singleton last front)

/-! ### The invariant -/

/-- What every operation keeps. -/
structure Ordered (p : Publisher) : Prop where
  /-- Handles were given out one after the other. -/
  ids_eq : p.subscriptions.map Subscription.id = List.range' 1 p.issued
  /-- A number is the handle that it goes with, wrapped round. -/
  number_eq : ∀ s ∈ p.subscriptions, s.number = s.id % 2 ^ 64
  /-- So is the one that is given out next, but numbers are gone if no queue can be made. -/
  next_eq : p.capacity ≤ largestCapacity → p.next = (p.issued + 1) % 2 ^ 64
  /-- What is registered for a topic are subscriptions to it, -/
  registered_topic : ∀ topic, ∀ id ∈ p.registered topic,
    ∃ s, p.subscription? id = some s ∧ s.topic = topic
  /-- each of them once. -/
  registered_nodup : ∀ topic, (p.registered topic).Nodup
  /-- No queue holds more than there is room for. -/
  length_le : ∀ s ∈ p.subscriptions, s.queue.length ≤ p.capacity
  /-- The events that were lost are those that were lost by the subscriptions. -/
  dropped_eq : p.dropped = (p.subscriptions.map Subscription.dropped).sum % 2 ^ 64

theorem ordered_start {capacity : ℕ} (pos : 0 < capacity) : Ordered (start capacity pos) where
  ids_eq := rfl
  number_eq := by
    intro s hs
    cases hs
  next_eq _ := rfl
  registered_topic := by
    intro topic id hid
    cases topic <;> cases hid
  registered_nodup := by
    intro topic
    cases topic <;> exact List.nodup_nil
  length_le := by
    intro s hs
    cases hs
  dropped_eq := rfl

namespace Ordered

variable (h : Ordered p)
include h

theorem nodup : (p.subscriptions.map Subscription.id).Nodup := by
  rw [h.ids_eq]
  exact List.nodup_range'

/-- A handle tells subscriptions apart. -/
theorem subscription?_of_mem (hs : s ∈ p.subscriptions) : p.subscription? s.id = some s := by
  unfold subscription?
  rw [List.find?_eq_some_iff_append]
  obtain ⟨l₁, l₂, hl⟩ := List.append_of_mem hs
  refine ⟨by simp, l₁, l₂, hl, fun u hu => ?_⟩
  have hnodup := h.nodup
  rw [hl, List.map_append, List.map_cons, List.nodup_append] at hnodup
  have hne := hnodup.2.2 u.id (List.mem_map_of_mem hu) s.id List.mem_cons_self
  simpa using hne

theorem id_le (hs : p.subscription? id = some s) : id ≤ p.issued := by
  have hmem : s.id ∈ p.subscriptions.map Subscription.id :=
    List.mem_map_of_mem (List.mem_of_find?_eq_some hs)
  rw [h.ids_eq, List.mem_range'_1, id_of_subscription? hs] at hmem
  omega

/-- The number of a subscription is its handle, wrapped round. -/
theorem number?_eq (hs : p.subscription? id = some s) : p.number? id = some (id % 2 ^ 64) := by
  unfold number?
  rw [hs, Option.map_some, h.number_eq s (List.mem_of_find?_eq_some hs), id_of_subscription? hs]

/-- As long as numbers have not come again, no two subscriptions have the same. -/
theorem eq_of_number? (hissued : p.issued < 2 ^ 64) (hid : p.number? id = some n)
    (hj : p.number? j = some n) : id = j := by
  have hle : ∀ k, p.number? k = some n → k ≤ p.issued ∧ k % 2 ^ 64 = n := by
    intro k hk
    obtain ⟨s, hs, -⟩ := Option.map_eq_some_iff.mp hk
    exact ⟨h.id_le hs, Option.some.inj ((h.number?_eq hs).symm.trans hk)⟩
  obtain ⟨hidle, hidn⟩ := hle id hid
  obtain ⟨hjle, hjn⟩ := hle j hj
  omega

/-- What is registered under one topic is not registered under another one. -/
theorem topic_eq (hs : p.subscription? id = some s) (hid : id ∈ p.registered topic) :
    s.topic = topic := by
  obtain ⟨u, hu, htopic⟩ := h.registered_topic topic id hid
  cases hs.symm.trans hu
  exact htopic

theorem register (hsub : ids ⊆ p.registered topic) (hnodup : ids.Nodup) :
    Ordered (p.register topic ids) := by
  obtain ⟨hsubscriptions, hnext, hdropped, hcapacity⟩ := frame_register p topic ids
  have hissued : (p.register topic ids).issued = p.issued := congrArg List.length hsubscriptions
  constructor
  · rw [hsubscriptions, hissued]
    exact h.ids_eq
  · rw [hsubscriptions]
    exact h.number_eq
  · rw [hcapacity, hnext, hissued]
    exact h.next_eq
  · intro t id hid
    rw [registered_register] at hid
    rw [subscription?_register]
    split at hid
    · next ht => exact ht ▸ h.registered_topic topic id (hsub hid)
    · exact h.registered_topic t id hid
  · intro t
    rw [registered_register]
    split
    · exact hnodup
    · exact h.registered_nodup t
  · rw [hsubscriptions, hcapacity]
    exact h.length_le
  · rw [hdropped, hsubscriptions]
    exact h.dropped_eq

/-- One subscription is changed, and what was lost is counted. -/
theorem modify {f : Subscription → Subscription} {n : ℕ} (hf : Subscription.Steady f)
    (hlength : ∀ s, p.subscription? id = some s → (f s).queue.length ≤ p.capacity)
    (hdropped : n = ((p.modify id f).subscriptions.map Subscription.dropped).sum % 2 ^ 64) :
    Ordered { p.modify id f with dropped := n } := by
  have hissued := issued_modify p id f
  constructor
  · show (p.modify id f).subscriptions.map Subscription.id = List.range' 1 (p.modify id f).issued
    rw [hissued, ← h.ids_eq]
    unfold Publisher.modify
    rw [List.map_map]
    refine List.map_congr_left fun s hs => ?_
    simp only [Function.comp_apply]
    split
    · exact hf.id_eq s
    · rfl
  · intro s hs
    obtain ⟨u, hu, rfl⟩ := List.mem_map.mp hs
    split
    · rw [hf.number_eq, hf.id_eq]
      exact h.number_eq u hu
    · exact h.number_eq u hu
  · show p.capacity ≤ largestCapacity → p.next = ((p.modify id f).issued + 1) % 2 ^ 64
    rw [hissued]
    exact h.next_eq
  · intro topic j hj
    obtain ⟨s, hs, rfl⟩ := h.registered_topic topic j hj
    have hmodify : (p.modify id f).subscription? j = _ := subscription?_modify hf.id_eq
    refine ⟨if j = id then f s else s, hmodify.trans ?_, ?_⟩
    · rw [hs]
      split <;> rfl
    · split
      · exact hf.topic_eq s
      · rfl
  · exact h.registered_nodup
  · intro s hs
    obtain ⟨u, hu, rfl⟩ := List.mem_map.mp hs
    split
    · next hui =>
      subst hui
      exact hlength u (h.subscription?_of_mem hu)
    · exact h.length_le u hu
  · exact hdropped

/-- What all have lost, if one of them is changed. -/
theorem sum_dropped_modify {f : Subscription → Subscription} (hs : p.subscription? id = some s) :
    ((p.modify id f).subscriptions.map Subscription.dropped).sum + s.dropped
      = (p.subscriptions.map Subscription.dropped).sum + (f s).dropped := by
  obtain ⟨l₁, l₂, hl⟩ := List.append_of_mem (List.mem_of_find?_eq_some hs)
  have hid := id_of_subscription? hs
  have hnodup := h.nodup
  rw [hl, List.map_append, List.map_cons, List.nodup_append, List.nodup_cons] at hnodup
  obtain ⟨-, ⟨hs₂, -⟩, hs₁⟩ := hnodup
  -- the other subscriptions have other handles
  have hfront : l₁.map (fun u => if u.id = id then f u else u) = l₁ := by
    refine (List.map_congr_left fun u hu => if_neg ?_).trans l₁.map_id
    exact hid ▸ hs₁ u.id (List.mem_map_of_mem hu) s.id List.mem_cons_self
  have hbehind : l₂.map (fun u => if u.id = id then f u else u) = l₂ := by
    refine (List.map_congr_left fun u hu => if_neg ?_).trans l₂.map_id
    rintro rfl
    exact hs₂ (hid ▸ List.mem_map_of_mem hu)
  have hmodify : (p.modify id f).subscriptions = l₁ ++ f s :: l₂ := by
    unfold Publisher.modify
    rw [hl, List.map_append, List.map_cons, hfront, hbehind, if_pos hid]
  rw [hmodify, hl]
  simp only [List.map_append, List.map_cons, List.sum_append, List.sum_cons]
  omega

/-- One subscription is changed, and has lost no more than before. -/
theorem modify_of_dropped_eq {f : Subscription → Subscription} (hf : Subscription.Steady f)
    (hdropped : ∀ s, (f s).dropped = s.dropped)
    (hlength : ∀ s, p.subscription? id = some s → (f s).queue.length ≤ p.capacity) :
    Ordered (p.modify id f) := by
  refine h.modify hf hlength (n := p.dropped) (h.dropped_eq.trans ?_)
  unfold Publisher.modify
  rw [List.map_map]
  refine congrArg (List.sum · % 2 ^ 64) (List.map_congr_left fun s hs => ?_)
  simp only [Function.comp_apply]
  split
  · exact (hdropped s).symm
  · rfl

/-- What a change does to other subscriptions than the one that it is about does not
matter. -/
theorem modify_congr {f g : Subscription → Subscription}
    (hfg : ∀ s, p.subscription? id = some s → f s = g s) : p.modify id f = p.modify id g := by
  have hmap : p.subscriptions.map (fun s => if s.id = id then f s else s)
      = p.subscriptions.map fun s => if s.id = id then g s else s := by
    refine List.map_congr_left fun s hs => ?_
    split
    · next hid => exact hfg s (hid ▸ h.subscription?_of_mem hs)
    · rfl
  unfold Publisher.modify
  rw [hmap]

theorem modify_self {f : Subscription → Subscription}
    (hf : ∀ s, p.subscription? id = some s → f s = s) : p.modify id f = p := by
  rw [h.modify_congr (g := fun s => s) hf]
  unfold Publisher.modify
  simp

end Ordered

end Publisher
end BlockIngest
