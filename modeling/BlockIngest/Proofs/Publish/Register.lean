import BlockIngest.Proofs.Publish.Stream

/-!
# How long a subscription is on the register

A subscription that was made is taken off the register for two reasons only: someone cancels
it by its number, or an event of its topic is published after its holder has given it up.
Nothing that is done with other subscriptions takes it off, whatever a removal does to the
order of the register.  So a cancellation finds a number just if the subscription was made
and neither reason has occurred, and as many subscriptions of a topic are counted as were
neither cancelled nor given up.

Numbers are words of 64 bits, and come again after as many subscriptions as there are words.
Until then no two subscriptions have the same number, and it does not matter which topic a
cancellation searches first.

## Main definitions

* `Publisher.Ticket`, `Publisher.made` — a subscription that was made, and what was done since.
* `Publisher.Ticket.Listed`, `Publisher.Ticket.Live` — that nothing has taken it off the
  register, and that it has not ended.
* `Publisher.Lists` — the law.

## Main results

* `Publisher.Reader.Open.registered_iff` — how long a reader is registered.
* `Publisher.mem_registered_iff` — **what is on the register.**
* `Publisher.lists_after` — **the law of the register**, whatever is done with it.
-/

namespace BlockIngest
namespace Publisher

/-! ### How long a reader is registered -/

namespace Reader

variable {c : ℕ} {r : Reader} {ds : List Deed}

theorem registered_after_of_off (h : r.registered = false) : ¬ (r.after c ds).registered := by
  rw [registered_after (Or.inr h)]
  exact Bool.false_ne_true

/-- One that was given up is registered until it is cancelled, or an event is published. -/
theorem registered_iff_of_free (hreg : r.registered) (hheld : r.held = false) :
    (r.after c ds).registered ↔ .unsubscribe ∉ ds ∧ ∀ e, .publish e ∉ ds := by
  induction ds generalizing r with
  | nil => simp [after, hreg]
  | cons d ds ih =>
    rw [after_cons]
    cases d with
    | publish e =>
      rw [step_publish_of_free hreg hheld]
      apply iff_of_false (registered_after_of_off rfl)
      intro h
      exact h.2 e List.mem_cons_self
    | unsubscribe =>
      apply iff_of_false (registered_after_of_off rfl)
      intro h
      exact h.1 List.mem_cons_self
    | receive => simpa using ih (r := r.step c .receive) hreg hheld
    | giveUp => simpa using ih (r := r.step c .giveUp) hreg rfl

/-- **How long a reader is registered**: until it is cancelled, or an event is published after
it was given up. -/
theorem Open.registered_iff (h : r.Open) : (r.after c ds).registered ↔
    .unsubscribe ∉ ds ∧ ∀ e, ¬ List.Sublist [.giveUp, .publish e] ds := by
  induction ds generalizing r with
  | nil => simp [after, h.1]
  | cons d ds ih =>
    rw [after_cons]
    simp only [List.cons_sublist_cons', List.singleton_sublist, List.mem_cons]
    cases d with
    | publish e => simpa using ih (h.step (c := c) (d := .publish e) rfl)
    | receive => simpa using ih (h.step (c := c) (d := .receive) rfl)
    | unsubscribe =>
      apply iff_of_false (registered_after_of_off rfl)
      intro h
      exact h.1 (Or.inl rfl)
    | giveUp =>
      -- what matters from now on is any event at all
      rw [registered_iff_of_free (r := r.step c .giveUp) h.1 rfl]
      have hlater : ∀ e, List.Sublist [Deed.giveUp, Deed.publish e] ds → Deed.publish e ∈ ds := by
        intro e hsub
        exact hsub.subset (by simp)
      simp only [reduceCtorEq, false_or, true_and]
      refine and_congr_right fun _ => forall_congr' fun e => not_congr ?_
      constructor
      · exact Or.inr
      · rintro (hsub | hmem)
        · exact hlater e hsub
        · exact hmem

end Reader

/-! ### Subscriptions that were made -/

/-- A subscription that was made. -/
structure Ticket where
  /-- Its handle. -/
  id : ℕ
  /-- Its number, as the subscriber was told. -/
  number : ℕ
  /-- Its topic. -/
  topic : Topic
  /-- What was done after it was made. -/
  later : List Op

namespace Ticket

/-- Nothing has taken it off the register: it was not cancelled, and no event of its topic was
published after its holder has given it up. -/
def Listed (t : Ticket) : Prop :=
  (∀ first, .unsubscribe t.number first ∉ t.later) ∧
    ∀ e, e.topic = t.topic → ¬ List.Sublist [.giveUp t.id, .publish e] t.later

/-- It has not ended: it was neither cancelled nor given up. -/
def Live (t : Ticket) : Prop :=
  (∀ first, .unsubscribe t.number first ∉ t.later) ∧ .giveUp t.id ∉ t.later

/-- It has not ended if it is on the register, and its holder still has it. -/
theorem live_iff {t : Ticket} : t.Live ↔ t.Listed ∧ .giveUp t.id ∉ t.later := by
  constructor
  · rintro ⟨hkept, hheld⟩
    exact ⟨⟨hkept, fun _ _ hsub => hheld (hsub.subset List.mem_cons_self)⟩, hheld⟩
  · rintro ⟨hlisted, hheld⟩
    exact ⟨hlisted.1, hheld⟩

/-- What was done about it, if it is told by its number. -/
def deeds (t : Ticket) : List Deed :=
  t.later.filterMap (Op.deed? t.topic t.id fun n _ => n = t.number)

end Ticket

/-- The subscriptions that are made by operations, one after the other. -/
def made (p : Publisher) : List Op → List Ticket
  | [] => []
  | .subscribe topic :: ops =>
      match p.subscribe topic with
      | (.ok id, q) => ⟨id, (q.number? id).getD 0, topic, ops⟩ :: q.made ops
      | (.error _, q) => q.made ops
  | op :: ops => (p.step op).made ops

variable {p : Publisher} {topic : Topic} {id n : ℕ} {op : Op} {ops : List Op} {t : Ticket}
  {e : Event} {hits : ℕ → Topic → Bool}

/-- An operation makes a subscription, or it makes none. -/
theorem Ordered.made_cons (h : Ordered p) (op : Op) (ops : List Op) :
    op.makes p.capacity = false ∧ p.made (op :: ops) = (p.step op).made ops ∨
      ∃ topic, op.makes p.capacity ∧ p.step op = p.opened topic ∧
        Reads (p.opened topic) topic (p.issued + 1) .fresh ∧
        p.made (op :: ops)
          = ⟨p.issued + 1, (p.issued + 1) % 2 ^ 64, topic, ops⟩ :: (p.opened topic).made ops := by
  cases op with
  | subscribe topic =>
    rcases subscribe_cases p topic with ⟨hcapacity, heq⟩ | ⟨hcapacity, text, heq⟩
    · have hreads := Reads.fresh h hcapacity topic
      refine Or.inr ⟨topic, by simp [Op.makes, hcapacity], congrArg Prod.snd heq, hreads, ?_⟩
      rw [made, heq]
      simp only [hreads.number?_eq, Option.getD_some]
    · refine Or.inl ⟨by simp [Op.makes, hcapacity], ?_⟩
      rw [made, Publisher.step, heq]
  | unsubscribe | giveUp | publish | receive => exact Or.inl ⟨rfl, rfl⟩

/-- Handles are given out one after the other. -/
theorem Ordered.ids_made (h : Ordered p) (ops : List Op) :
    (p.made ops).map Ticket.id
      = List.range' (p.issued + 1) (ops.countP (Op.makes p.capacity)) := by
  induction ops generalizing p with
  | nil => rfl
  | cons op ops ih =>
    obtain ⟨hcapacity, hissued⟩ := frame_step p op
    have hlater := ih (h.step op)
    rw [hcapacity, hissued] at hlater
    rcases h.made_cons op ops with ⟨hnot, heq⟩ | ⟨topic, hmakes, hstep, -, heq⟩
    · rw [if_neg (by rw [hnot]; exact Bool.false_ne_true)] at hlater
      rw [heq, hlater, List.countP_cons_of_neg (by rw [hnot]; exact Bool.false_ne_true)]
    · rw [if_pos hmakes, hstep] at hlater
      rw [heq, List.map_cons, hlater, List.countP_cons_of_pos hmakes, List.range'_succ]

/-- A subscription comes to what was done with it after it was made, as long as numbers have not
come again. -/
theorem Ordered.reads_of_made (h : Ordered p) (hissued : (p.after ops).issued < 2 ^ 64)
    (ht : t ∈ p.made ops) : t.number = t.id % 2 ^ 64 ∧
      Reads (p.after ops) t.topic t.id (Reader.fresh.after p.capacity t.deeds) := by
  induction ops generalizing p with
  | nil => cases ht
  | cons op ops ih =>
    have hlater := ih (h.step op) hissued
    rw [(frame_step p op).1] at hlater
    rcases h.made_cons op ops with ⟨-, heq⟩ | ⟨topic, -, hstep, hfresh, heq⟩
    · rw [heq] at ht
      exact hlater ht
    · rw [heq] at ht
      rcases List.mem_cons.mp ht with rfl | ht
      · -- it is made here, and what is done later moves it from where it starts
        have hordered : Ordered (p.opened topic) := hstep ▸ h.step op
        have hreads := hfresh.after hordered ops
        have hsame : p.after (op :: ops) = (p.opened topic).after ops :=
          congrArg (Publisher.after · ops) hstep
        rw [hsame] at hissued ⊢
        rw [hfresh.own_eq hordered hissued, (frame_opened p topic).2.2.2] at hreads
        exact ⟨rfl, hreads⟩
      · exact hlater (hstep.symm ▸ ht)

theorem unsubscribe_mem_deeds :
    .unsubscribe ∈ t.deeds ↔ ∃ first, .unsubscribe t.number first ∈ t.later := by
  unfold Ticket.deeds
  rw [List.mem_filterMap]
  constructor
  · rintro ⟨op, hop, hdeed⟩
    cases op with
    | subscribe => cases hdeed
    | unsubscribe n first =>
      rw [Op.deed?] at hdeed
      split at hdeed
      · next hn => exact ⟨first, of_decide_eq_true hn ▸ hop⟩
      · cases hdeed
    | giveUp | publish | receive =>
      rw [Op.deed?] at hdeed
      split at hdeed <;> cases hdeed
  · rintro ⟨first, hop⟩
    exact ⟨_, hop, if_pos (decide_eq_true rfl)⟩

theorem giveUp_mem_deeds : .giveUp ∈ t.deeds ↔ .giveUp t.id ∈ t.later := by
  unfold Ticket.deeds
  simp only [List.mem_filterMap, deed?_eq_giveUp, exists_eq_right]

theorem deed?_eq_publish : op.deed? topic id hits = some (.publish e) ↔
    e.topic = topic ∧ op = .publish e := by
  cases op with
  | publish e' =>
    simp only [Op.deed?, Option.ite_none_right_eq_some, Option.some.injEq, Deed.publish.injEq,
      Op.publish.injEq]
    exact and_congr_left fun he => by rw [he]
  | subscribe | unsubscribe | giveUp | receive => simp [Op.deed?]

/-- An event that is published after a subscription was given up matters to it if it is of its
topic. -/
theorem sublist_filterMap_deed? :
    List.Sublist [.giveUp, .publish e] (ops.filterMap (Op.deed? topic id hits)) ↔
      e.topic = topic ∧ List.Sublist [.giveUp id, .publish e] ops := by
  induction ops with
  | nil => simp
  | cons op ops ih =>
    have hpublish : .publish e ∈ ops.filterMap (Op.deed? topic id hits) ↔
        e.topic = topic ∧ .publish e ∈ ops := by
      simp only [List.mem_filterMap, deed?_eq_publish]
      exact ⟨fun ⟨_, hop, htopic, heq⟩ => ⟨htopic, heq ▸ hop⟩,
        fun ⟨htopic, hop⟩ => ⟨_, hop, htopic, rfl⟩⟩
    have hgiven : op.deed? topic id hits = some .giveUp ↔ op = .giveUp id := deed?_eq_giveUp
    rw [List.cons_sublist_cons', List.singleton_sublist, List.filterMap_cons]
    -- the operation is about others, or it is a deed, and then it is giving up in both or neither
    rcases hd : op.deed? topic id hits with _ | d
    · have hop : Op.giveUp id ≠ op := by
        intro heq
        cases hd.symm.trans (hgiven.mpr heq.symm)
      simp only [ih, hop, false_and, or_false]
    · have hop : Deed.giveUp = d ↔ Op.giveUp id = op := by
        rw [hd, Option.some.injEq] at hgiven
        rw [eq_comm, hgiven, eq_comm]
      simp only [List.cons_sublist_cons', List.singleton_sublist, ih, hpublish, hop]
      rw [and_or_left, and_left_comm]

/-! ### What is on the register -/

section Start

variable {capacity : ℕ} {pos : 0 < capacity}
  (hbound : ops.countP (Op.makes capacity) < 2 ^ 64)
include hbound

theorem issued_lt : ((start capacity pos).after ops).issued < 2 ^ 64 := by
  rw [(frame_after _ ops).2]
  exact (Nat.zero_add _).trans_lt hbound

theorem reads_of_made (ht : t ∈ (start capacity pos).made ops) :
    Reads ((start capacity pos).after ops) t.topic t.id (Reader.fresh.after capacity t.deeds) :=
  ((ordered_start pos).reads_of_made (issued_lt hbound) ht).2

/-- A number is the handle that it goes with. -/
theorem number_of_made (ht : t ∈ (start capacity pos).made ops) : t.number = t.id := by
  have hnumber := ((ordered_start pos).reads_of_made (issued_lt hbound) ht).1
  have hle := ((ordered_start pos).after ops).id_le (reads_of_made hbound ht).found
  have hlt : ((start capacity pos).after ops).issued < 2 ^ 64 := issued_lt hbound
  rw [hnumber, Nat.mod_eq_of_lt (hle.trans_lt hlt)]

theorem number?_of_made (ht : t ∈ (start capacity pos).made ops) :
    ((start capacity pos).after ops).number? t.id = some t.number := by
  have h := ((ordered_start pos).reads_of_made (issued_lt hbound) ht)
  rw [h.2.number?_eq, h.1]

/-- A subscription is on the register as long as nothing has taken it off. -/
theorem isRegistered_of_made (ht : t ∈ (start capacity pos).made ops) :
    ((start capacity pos).after ops).isRegistered t.id ↔ t.Listed := by
  have hopen : Reader.fresh.Open := ⟨rfl, rfl⟩
  rw [(reads_of_made hbound ht).registered, hopen.registered_iff, unsubscribe_mem_deeds,
    not_exists]
  refine and_congr_right fun _ => forall_congr' fun e => ?_
  unfold Ticket.deeds
  rw [sublist_filterMap_deed?, not_and]

theorem isHeld_of_made (ht : t ∈ (start capacity pos).made ops) :
    ((start capacity pos).after ops).isHeld t.id ↔ .giveUp t.id ∉ t.later := by
  rw [isHeld_of_some (reads_of_made hbound ht).found, Reader.held_after, giveUp_mem_deeds]
  exact and_iff_right rfl

omit hbound in
/-- Everything on the register is a subscription that was made. -/
theorem exists_made (hid : id ∈ ((start capacity pos).after ops).registered topic) :
    ∃ t ∈ (start capacity pos).made ops, t.id = id := by
  have h := (ordered_start pos).after ops
  obtain ⟨s, hs, -⟩ := h.registered_topic topic id hid
  have hmem : s.id ∈ ((start capacity pos).after ops).subscriptions.map Subscription.id :=
    List.mem_map_of_mem (List.mem_of_find?_eq_some hs)
  have hids : ((start capacity pos).made ops).map Ticket.id
      = List.range' 1 ((start capacity pos).after ops).issued := by
    rw [(ordered_start pos).ids_made, (frame_after _ ops).2]
    exact congrArg (List.range' 1) (Nat.zero_add _).symm
  rw [h.ids_eq, ← hids, id_of_subscription? hs] at hmem
  obtain ⟨t, ht, hid⟩ := List.mem_map.mp hmem
  exact ⟨t, ht, hid⟩

/-- **What is on the register**: the subscriptions of the topic that nothing has taken off. -/
theorem mem_registered_iff :
    id ∈ ((start capacity pos).after ops).registered topic ↔
      ∃ t ∈ (start capacity pos).made ops, t.id = id ∧ t.topic = topic ∧ t.Listed := by
  have h := (ordered_start pos).after ops
  constructor
  · intro hid
    obtain ⟨t, ht, rfl⟩ := exists_made hid
    have hreads := reads_of_made hbound ht
    refine ⟨t, ht, rfl, (hreads.mem_registered h).mp hid |>.1.symm, ?_⟩
    exact (isRegistered_of_made hbound ht).mp (isRegistered_iff.mpr ⟨topic, hid⟩)
  · rintro ⟨t, ht, rfl, rfl, hlisted⟩
    have hreads := reads_of_made hbound ht
    have hregistered := (isRegistered_of_made hbound ht).mpr hlisted
    rw [hreads.registered] at hregistered
    exact (hreads.mem_registered h).mpr ⟨rfl, hregistered⟩

/-- What a cancellation takes off the register was made, and has its number. -/
theorem exists_of_struck {x : Topic × ℕ}
    (hx : ((start capacity pos).after ops).struck? n topic = some x) :
    ∃ t ∈ (start capacity pos).made ops, t.id = x.2 ∧ t.number = n ∧ t.topic = x.1 ∧ t.Listed := by
  obtain ⟨hid, hnumber⟩ := struck?_eq_some hx
  obtain ⟨t, ht, hid, htopic, hlisted⟩ := (mem_registered_iff hbound).mp hid
  rw [← hid] at hnumber
  exact ⟨t, ht, hid, Option.some.inj ((number?_of_made hbound ht).symm.trans hnumber), htopic,
    hlisted⟩

end Start

/-! ### The law -/

/-- **The law of a register** on which these subscriptions were put. -/
structure Lists (p : Publisher) (tickets : List Ticket) : Prop where
  /-- No two of them have the same number. -/
  nodup : (tickets.map Ticket.number).Nodup
  /-- As many are counted for a topic as were neither cancelled nor given up. -/
  count_eq : ∀ topic, ∃ numbers : List ℕ, numbers.Nodup ∧ p.count topic = numbers.length ∧
    ∀ n, n ∈ numbers ↔ ∃ t ∈ tickets, t.number = n ∧ t.topic = topic ∧ t.Live
  /-- A cancellation finds a number just if it was given out, was not cancelled since, and no
  event of its topic was published after its holder has given it up. -/
  found_iff : ∀ n first, (p.unsubscribe n first).1 ↔ ∃ t ∈ tickets, t.number = n ∧ t.Listed
  /-- It takes off the subscription with this number and no other one, under whatever topic. -/
  removes : ∀ t ∈ tickets, ∀ first topic,
    ((p.unsubscribe t.number first).2.registered topic).Perm ((p.registered topic).erase t.id)
  /-- A number that was not given out takes nothing off. -/
  unknown : ∀ n first, (∀ t ∈ tickets, t.number ≠ n) → p.unsubscribe n first = (false, p)
  /-- What is queued is left alone. -/
  keeps : ∀ n first, (p.unsubscribe n first).2.subscriptions = p.subscriptions
  /-- One that has not ended stays on the register when another one is cancelled. -/
  spared : ∀ t ∈ tickets, t.Live → ∀ n first, n ≠ t.number →
    t.id ∈ (p.unsubscribe n first).2.registered t.topic
  /-- It stays there when an event is published, of whatever topic. -/
  unpruned : ∀ t ∈ tickets, t.Live → ∀ e, t.id ∈ (p.publish e).2.registered t.topic
  /-- After an event, none that was given up is left on the register under its topic. -/
  swept : ∀ e, ∀ id ∈ (p.publish e).2.registered e.topic, (p.publish e).2.isHeld id

theorem isHeld_register {ids : List ℕ} : (p.register topic ids).isHeld id = p.isHeld id := by
  unfold isHeld
  rw [subscription?_register]

section Law

variable {capacity : ℕ} {pos : 0 < capacity}
  (hbound : ops.countP (Op.makes capacity) < 2 ^ 64)
include hbound

/-- What has not ended is on the register. -/
theorem registered_of_live (ht : t ∈ (start capacity pos).made ops) (hlive : t.Live) :
    t.id ∈ ((start capacity pos).after ops).registered t.topic :=
  (mem_registered_iff hbound).mpr ⟨t, ht, rfl, rfl, (Ticket.live_iff.mp hlive).1⟩

/-- A cancellation finds what is on the register under the number. -/
theorem struck?_of_listed (ht : t ∈ (start capacity pos).made ops) (hlisted : t.Listed)
    (first : Topic) :
    ((start capacity pos).after ops).struck? t.number first = some (t.topic, t.id) := by
  have hid : t.id ∈ ((start capacity pos).after ops).registered t.topic :=
    (mem_registered_iff hbound).mpr ⟨t, ht, rfl, rfl, hlisted⟩
  rcases hstruck : ((start capacity pos).after ops).struck? t.number first with _ | ⟨topic, id⟩
  · exact absurd (number?_of_made hbound ht) (struck?_eq_none hstruck hid)
  · obtain ⟨u, hu, hid', hnumber, htopic, -⟩ := exists_of_struck hbound hstruck
    -- numbers are handles, and a handle tells subscriptions apart
    rw [number_of_made hbound hu, number_of_made hbound ht] at hnumber
    have hreads := (reads_of_made hbound ht).found
    rw [← hnumber, (reads_of_made hbound hu).found] at hreads
    have hsame : u.topic = t.topic := congrArg Subscription.topic (Option.some.inj hreads)
    simp only at hid' htopic
    rw [← htopic, hsame, ← hid', hnumber]

theorem count_of_live (topic : Topic) : ∃ numbers : List ℕ, numbers.Nodup ∧
    ((start capacity pos).after ops).count topic = numbers.length ∧
    ∀ n, n ∈ numbers ↔
      ∃ t ∈ (start capacity pos).made ops, t.number = n ∧ t.topic = topic ∧ t.Live := by
  have h := (ordered_start pos).after ops
  -- those that are counted are on the register, and their holders still have them
  refine ⟨_, (h.registered_nodup topic).filter _, List.countP_eq_length_filter, fun n => ?_⟩
  rw [List.mem_filter, mem_registered_iff hbound]
  constructor
  · rintro ⟨⟨t, ht, rfl, htopic, hlisted⟩, hheld⟩
    have hkept := (isHeld_of_made hbound ht).mp hheld
    exact ⟨t, ht, number_of_made hbound ht, htopic, Ticket.live_iff.mpr ⟨hlisted, hkept⟩⟩
  · rintro ⟨t, ht, rfl, htopic, hlive⟩
    obtain ⟨hlisted, hkept⟩ := Ticket.live_iff.mp hlive
    rw [number_of_made hbound ht]
    exact ⟨⟨t, ht, rfl, htopic, hlisted⟩, (isHeld_of_made hbound ht).mpr hkept⟩

/-- A cancellation of a number takes nothing off if it was not given out, or if its subscription
is off the register. -/
theorem unsubscribe_of_off (hoff : ∀ t ∈ (start capacity pos).made ops, t.number = n → ¬ t.Listed)
    (first : Topic) : ((start capacity pos).after ops).unsubscribe n first
      = (false, (start capacity pos).after ops) := by
  rcases unsubscribe_cases ((start capacity pos).after ops) n first with
    ⟨-, heq⟩ | ⟨topic, id, hstruck, -⟩
  · exact heq
  · obtain ⟨t, ht, -, hnumber, -, hlisted⟩ := exists_of_struck hbound hstruck
    exact absurd hlisted (hoff t ht hnumber)

theorem registered_unsubscribe_perm (ht : t ∈ (start capacity pos).made ops)
    (first topic : Topic) :
    ((((start capacity pos).after ops).unsubscribe t.number first).2.registered topic).Perm
      ((((start capacity pos).after ops).registered topic).erase t.id) := by
  have h := (ordered_start pos).after ops
  by_cases hlisted : t.Listed
  · have hstruck := struck?_of_listed hbound ht hlisted first
    unfold unsubscribe
    rw [hstruck]
    exact h.registered_remove (struck?_eq_some hstruck).1
  · have hoff : ¬ ((start capacity pos).after ops).isRegistered t.id :=
      (isRegistered_of_made hbound ht).not.mpr hlisted
    have hsame : ∀ u ∈ (start capacity pos).made ops, u.number = t.number → ¬ u.Listed := by
      intro u hu hnumber
      rw [number_of_made hbound hu, number_of_made hbound ht] at hnumber
      rwa [← isRegistered_of_made hbound hu, hnumber]
    rw [unsubscribe_of_off hbound hsame,
      List.erase_of_not_mem fun hid => hoff (isRegistered_iff.mpr ⟨topic, hid⟩)]

/-- What has not ended stays on the register when another number is cancelled. -/
theorem registered_unsubscribe_of_ne (ht : t ∈ (start capacity pos).made ops) (hlive : t.Live)
    (hn : n ≠ t.number) (first : Topic) :
    t.id ∈ (((start capacity pos).after ops).unsubscribe n first).2.registered t.topic := by
  have h := (ordered_start pos).after ops
  have hid : t.id ∈ ((start capacity pos).after ops).registered t.topic :=
    registered_of_live hbound ht hlive
  rcases unsubscribe_cases ((start capacity pos).after ops) n first with
    ⟨-, heq⟩ | ⟨topic, id, hstruck, heq⟩
  · rwa [heq]
  · obtain ⟨hstruckId, hnumber⟩ := struck?_eq_some hstruck
    have hne : t.id ≠ id := by
      rintro rfl
      exact hn (Option.some.inj (hnumber.symm.trans (number?_of_made hbound ht)))
    rw [heq, (h.registered_remove hstruckId).mem_iff, List.mem_erase_of_ne hne]
    exact hid

/-- **The law of the register**: it holds whatever was done, and in whatever order, as long as
fewer than `2 ^ 64` subscriptions were made. -/
theorem lists_after :
    Lists ((start capacity pos).after ops) ((start capacity pos).made ops) where
  nodup := by
    have hnumbers : ∀ t ∈ (start capacity pos).made ops, t.number = t.id :=
      fun t => number_of_made hbound
    rw [List.map_congr_left hnumbers, (ordered_start pos).ids_made]
    exact List.nodup_range'
  count_eq := count_of_live hbound
  found_iff := by
    intro n first
    constructor
    · intro hfound
      rcases unsubscribe_cases ((start capacity pos).after ops) n first with
        ⟨-, heq⟩ | ⟨topic, id, hstruck, -⟩
      · rw [heq] at hfound
        cases hfound
      · obtain ⟨t, ht, -, hnumber, -, hlisted⟩ := exists_of_struck hbound hstruck
        exact ⟨t, ht, hnumber, hlisted⟩
    · rintro ⟨t, ht, rfl, hlisted⟩
      unfold unsubscribe
      rw [struck?_of_listed hbound ht hlisted]
  removes := fun t => registered_unsubscribe_perm hbound
  unknown := fun n first hn =>
    unsubscribe_of_off hbound (fun t ht heq => absurd heq (hn t ht)) first
  keeps := subscriptions_unsubscribe _
  spared := fun t ht hlive n first hn => registered_unsubscribe_of_ne hbound ht hlive hn first
  unpruned := by
    intro t ht hlive e
    have hfound := (reads_of_made hbound ht).found
    refine (((ordered_start pos).after ops).registered_publish hfound).mpr
      ⟨registered_of_live hbound ht hlive, fun _ => ?_⟩
    rw [← isHeld_of_some hfound]
    exact (isHeld_of_made hbound ht).mpr hlive.2
  swept := by
    intro e id hid
    rw [publish_eq, registered_register, if_pos rfl, List.mem_filter] at hid
    rw [publish_eq, isHeld_register]
    exact hid.2

end Law

/-- Three subscriptions to blocks and one to transactions are made.  One of each kind is given
up, which is noticed only for blocks, as only a block is published; and another one for blocks
is cancelled. -/
def busy : List Op :=
  [.subscribe .newBlock, .subscribe .newBlock, .subscribe .newTransaction, .subscribe .newBlock,
    .giveUp 1, .giveUp 3, .unsubscribe 4 .newTransaction, .publish (.block default)]

/-- One is left that has not ended.  It can still be cancelled, and so can the one whose end
was not noticed; the others cannot, nor can one that was never made. -/
theorem lists_after_busy :
    0 < 1 ∧ busy.countP (Op.makes 1) < 2 ^ 64 ∧
      Lists ((start 1 Nat.one_pos).after busy) ((start 1 Nat.one_pos).made busy) ∧
      ((start 1 Nat.one_pos).made busy).map Ticket.number = [1, 2, 3, 4] ∧
      ((start 1 Nat.one_pos).after busy).count .newBlock = 1 ∧
      ((start 1 Nat.one_pos).after busy).count .newTransaction = 0 ∧
      [1, 2, 3, 4, 5].map (fun n => (((start 1 Nat.one_pos).after busy).unsubscribe n .newBlock).1)
        = [false, true, true, false, false] := by
  have hbound : busy.countP (Op.makes 1) < 2 ^ 64 := by decide +kernel
  refine ⟨Nat.one_pos, hbound, lists_after hbound, ?_⟩
  decide +kernel

end Publisher
end BlockIngest
