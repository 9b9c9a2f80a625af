import BlockIngest.Proofs.Buffer.Traffic
import Mathlib.Algebra.Order.BigOperators.Group.List
import Mathlib.Tactic.Ring

/-!
# Nobody waits for what is already there

A call that looks in vain waits until it is told of a change.  The change may come after
it has looked and before it waits; but it began to listen before it looked, and so it is
told all the same.  As long as the due chunk is taken out only by calls that wait for it,
every change of the chunks is announced, and after an announcement nobody listens any
more.  Hence whoever waits and still listens would look in vain now, too.

An announcement sets all calls going again, and the first of them may change the buffer
once more: a chunk that comes in is what another call waits for, and when that one has
taken it out, there is room.  This ends, because a change is the last thing a call does.
Each call that is left has at most three turns more to take after a change than before
it, and there is one call less.

## Main definitions

* `Traffic.Watchful` — the invariant.
* `Traffic.effort`, `Traffic.labour` — how many turns are left for a call to take, and for
  all of them with the changes they make.
* `Traffic.Attentive` — the law.

## Main results

* `Traffic.Watchful.act` — **every act keeps the invariant, if the due chunk is taken out
  only by calls that wait for it.**
* `Traffic.labour_turn` — **each turn leaves less to do.**
* `Traffic.attentive_of_run` — **nobody waits for what is already there.**
-/

namespace BlockIngest

theorem Errand.Vain.same {b b' : Buffer} {e : Errand} (h : e.Vain b) (hsame : b.SameChunks b') :
    e.Vain b' := by
  obtain ⟨hchunks, hnext, hcapacity⟩ := hsame
  cases e with
  | push d => simpa only [Vain, Buffer.size, hchunks, hnext, hcapacity] using h
  | pop => simpa only [Vain, hchunks, hnext] using h

namespace Traffic

variable {capacity : ℕ} {n : ℕ} {ps : List Passage} {p : Passage} {x x' y : Traffic} {a : Act}
  {i : ℕ} {v : Visit}

/-! ### The law -/

/-- The due chunk is taken out only by calls that wait for it. -/
def Act.Patient (a : Act) : Prop := a ≠ .tryPop

/-- Calls only go on. -/
def Act.IsTurn (a : Act) : Prop := ∃ i, a = .turn i

/-- Nobody waits for what is already there. -/
structure Attentive (capacity : ℕ) (x : Traffic) : Prop where
  /-- The buffer has the capacity it had at first. -/
  capacity_eq : x.buffer.capacity = capacity
  /-- A chunk is found at the height at which it begins. -/
  keyed : ∀ k d, x.buffer.chunks.find? k = some d → d.range.first = k
  /-- A call that waits and has not been told of a change would look in vain. -/
  asleep : ∀ i e, x.visits.find? i = some ⟨e, .waiting⟩ → x.buffer.isListening (.visitor i) →
    e.Vain x.buffer
  /-- When no call can go on, each of them waits, and would look in vain. -/
  settled : (∀ i, x.act (.turn i) = none) → ∀ i v, x.visits.find? i = some v →
    v.phase = .waiting ∧ v.errand.Vain x.buffer
  /-- Calls that only go on do so no longer than this, in whatever order. -/
  rests : ∀ ps y, Run Act.IsTurn x ps y → ps.length ≤ 3 * x.visits.size ^ 2 + 4 * x.visits.size

/-! ### Who waits and still listens -/

/-- What every act keeps. -/
structure Watchful (capacity : ℕ) (x : Traffic) : Prop where
  capacity_eq : x.buffer.capacity = capacity
  keyed : ∀ k d, x.buffer.chunks.find? k = some d → d.range.first = k
  asleep : ∀ i e, x.visits.find? i = some ⟨e, .waiting⟩ → x.buffer.isListening (.visitor i) →
    e.Vain x.buffer

namespace Watchful

theorem start (n : ℕ) (hcapacity : 0 < capacity) :
    Watchful capacity (Traffic.start n capacity hcapacity) where
  capacity_eq := rfl
  keyed k d h := by cases h
  asleep i e h := by cases h

variable (h : Watchful capacity x)
include h

/-- The chunks stay as they are, and whoever waits and listens did so before or has just
looked in vain. -/
theorem quiet (hsame : x.buffer.SameChunks x'.buffer)
    (hasleep : ∀ i e, x'.visits.find? i = some ⟨e, .waiting⟩ →
      x'.buffer.isListening (.visitor i) →
      x.visits.find? i = some ⟨e, .waiting⟩ ∧ x.buffer.isListening (.visitor i) ∨
        e.Vain x.buffer) :
    Watchful capacity x' where
  capacity_eq := hsame.capacity_eq.trans h.capacity_eq
  keyed := hsame.chunks_eq ▸ h.keyed
  asleep i e hwaits hlistens := by
    rcases hasleep i e hwaits hlistens with ⟨hwaited, hlistened⟩ | hvain
    · exact (h.asleep i e hwaited hlistened).same hsame
    · exact hvain.same hsame

omit h in
/-- The chunks change, and nobody listens after that. -/
theorem told (hcapacity : x'.buffer.capacity = capacity)
    (hkeyed : ∀ k d, x'.buffer.chunks.find? k = some d → d.range.first = k)
    (hquiet : x'.buffer.listeners = []) : Watchful capacity x' where
  capacity_eq := hcapacity
  keyed := hkeyed
  asleep i e _ hlistens := by
    rw [Buffer.isListening, hquiet] at hlistens
    simp at hlistens

/-- **Every act keeps the invariant, if the due chunk is taken out only by calls that wait
for it.** -/
theorem act (hpatient : a.Patient) (hact : x.Acts a p x') : Watchful capacity x' := by
  have hforget : ∀ {t u}, (x.buffer.forget t).isListening u → x.buffer.isListening u := by
    intro t u hlistens
    simp only [Buffer.isListening, decide_eq_true_eq, Buffer.mem_forget] at hlistens ⊢
    exact hlistens.1
  cases hact with
  | called | woke =>
    refine h.quiet (.refl _) fun j e hwaits hlistens => ?_
    rcases HeightMap.of_find?_insert hwaits with ⟨-, heq⟩ | ⟨-, hwaited⟩
    · cases heq
    · exact Or.inl ⟨hwaited, hlistens⟩
  | listened =>
    refine h.quiet (x.buffer.same_listen _) fun j e hwaits hlistens => ?_
    rcases HeightMap.of_find?_insert hwaits with ⟨-, heq⟩ | ⟨hij, hwaited⟩
    · cases heq
    · simp only [Buffer.isListening, decide_eq_true_eq, Buffer.mem_listen] at hlistens ⊢
      exact Or.inl ⟨hwaited, hlistens.resolve_right fun heq => hij (TaskId.visitor.inj heq).symm⟩
  | missed hvisit hvain =>
    refine h.quiet (.refl _) fun j e hwaits hlistens => ?_
    rcases HeightMap.of_find?_insert hwaits with ⟨-, heq⟩ | ⟨-, hwaited⟩
    · cases heq
      exact Or.inr hvain
    · exact Or.inl ⟨hwaited, hlistens⟩
  | dropped | cancelled =>
    exact h.quiet (x.buffer.same_forget _) fun j e hwaits hlistens =>
      Or.inl ⟨(HeightMap.of_find?_erase hwaits).2, hforget hlistens⟩
  | admitted =>
    refine told h.capacity_eq (fun k e he => ?_) rfl
    rcases HeightMap.of_find?_insert he with ⟨hk, rfl⟩ | ⟨-, hold⟩
    · exact hk
    · exact h.keyed k e hold
  | popped =>
    exact told h.capacity_eq (fun k e he => h.keyed k e (HeightMap.of_find?_erase he).2) rfl
  | cleared => exact told h.capacity_eq (fun k e he => by cases he) rfl
  | tried => exact absurd rfl hpatient
  | passed => exact h

end Watchful

theorem Run.watchful (hcapacity : 0 < capacity)
    (hrun : Run Act.Patient (.start n capacity hcapacity) ps x) : Watchful capacity x := by
  induction hrun with
  | start => exact .start n hcapacity
  | act hrun hpatient hact ih => exact ih.act hpatient (act_cases hact)

/-- A call that cannot go on waits, and has not been told of a change. -/
theorem act_turn_eq_none (hvisit : x.visits.find? i = some v) (h : x.act (.turn i) = none) :
    v.phase = .waiting ∧ x.buffer.isListening (.visitor i) := by
  rw [act, hvisit, Option.bind_some] at h
  obtain ⟨e, phase⟩ := v
  cases phase with
  | fresh => cases e <;> cases h
  | looking =>
    cases e with
    | push d =>
      rcases hoffer : x.buffer.offer d with ⟨_ | _ | _, b⟩ <;>
        simp [goOn, Buffer.stepPush, hoffer] at h
    | pop =>
      rcases htake : x.buffer.take with ⟨_ | d, b⟩ <;>
        simp [goOn, Buffer.stepPop, htake] at h
  | waiting =>
    by_cases hlistens : x.buffer.isListening (.visitor i)
    · exact ⟨rfl, hlistens⟩
    · cases e <;> simp [goOn, Buffer.stepPush, Buffer.stepPop, hlistens] at h

/-! ### How many turns are left -/

/-- How many turns a call can take as long as nothing changes: to the end of a round, and
one round more if it has been told of a change. -/
def effort (b : Buffer) (i : ℕ) (v : Visit) : ℕ :=
  match v.phase, b.isListening (.visitor i) with
  | .fresh, _ => 2
  | .looking, true => 1
  | .looking, false => 4
  | .waiting, true => 0
  | .waiting, false => 3

theorem effort_le (b : Buffer) (i : ℕ) (v : Visit) : effort b i v ≤ 4 := by
  unfold effort
  split <;> omega

/-- A change gives a call at most three turns more. -/
theorem effort_le_add (b b' : Buffer) (i : ℕ) (v : Visit) :
    effort b' i v ≤ effort b i v + 3 := by
  unfold effort
  rcases v.phase <;> rcases b.isListening (.visitor i) <;>
    rcases b'.isListening (.visitor i) <;> decide

/-- How many turns all calls can take, counting three more for each pair of calls, of
which the one may make a change that the other is told of. -/
def labour (x : Traffic) : ℕ :=
  (x.visits.entries.map fun e => effort x.buffer e.1 e.2).sum + 3 * x.visits.size ^ 2

theorem labour_le (x : Traffic) : x.labour ≤ 3 * x.visits.size ^ 2 + 4 * x.visits.size := by
  have hsum : (x.visits.entries.map fun e => effort x.buffer e.1 e.2).sum
      ≤ (x.visits.entries.map fun _ => 4).sum :=
    List.sum_le_sum fun e _ => effort_le x.buffer e.1 e.2
  rw [List.map_const', List.sum_replicate, Nat.nsmul_eq_mul] at hsum
  unfold labour HeightMap.size at *
  omega

/-- A call goes on and stays, and no other one has more to do than before. -/
theorem labour_stay {b : Buffer} {v' : Visit} (hvisit : x.visits.find? i = some v)
    (hothers : ∀ j u, j ≠ i → effort b j u ≤ effort x.buffer j u)
    (hown : effort b i v' < effort x.buffer i v) :
    labour ⟨b, x.visits.insert i v'⟩ < x.labour := by
  have hrest : ((x.visits.erase i).entries.map fun e => effort b e.1 e.2).sum
      ≤ ((x.visits.erase i).entries.map fun e => effort x.buffer e.1 e.2).sum :=
    List.sum_le_sum fun e he => hothers e.1 e.2 (HeightMap.ne_of_mem_erase he)
  have hbefore := ((HeightMap.entries_erase_perm hvisit).map
    fun e => effort x.buffer e.1 e.2).sum_eq
  have hafter := ((x.visits.entries_insert_erase i v').map fun e => effort b e.1 e.2).sum_eq
  have hsize := HeightMap.size_erase hvisit
  have hsize' := x.visits.size_insert_erase i v'
  simp only [List.map_cons, List.sum_cons] at hbefore hafter
  simp only [labour]
  rw [hbefore, hafter, hsize, hsize']
  omega

/-- A call comes to its end, and whatever it has changed. -/
theorem labour_leave (hvisit : x.visits.find? i = some v) (hown : 0 < effort x.buffer i v)
    (b : Buffer) : labour ⟨b, x.visits.erase i⟩ < x.labour := by
  have hrest : ((x.visits.erase i).entries.map fun e => effort b e.1 e.2).sum
      ≤ ((x.visits.erase i).entries.map fun e => effort x.buffer e.1 e.2 + 3).sum :=
    List.sum_le_sum fun e _ => effort_le_add x.buffer b e.1 e.2
  rw [List.sum_map_add, List.map_const', List.sum_replicate, Nat.nsmul_eq_mul] at hrest
  have hbefore := ((HeightMap.entries_erase_perm hvisit).map
    fun e => effort x.buffer e.1 e.2).sum_eq
  simp only [List.map_cons, List.sum_cons] at hbefore
  have hsquare : (x.visits.size) ^ 2
      = (x.visits.erase i).size ^ 2 + 2 * (x.visits.erase i).size + 1 := by
    rw [HeightMap.size_erase hvisit]
    ring
  simp only [labour]
  rw [hbefore, hsquare]
  unfold HeightMap.size at *
  omega

/-- **Each turn leaves less to do.** -/
theorem labour_turn (hact : x.Acts (.turn i) p x') : x'.labour < x.labour := by
  have heffort : ∀ {e}, 0 < effort x.buffer i ⟨e, .looking⟩ := by
    intro e
    rcases hlistens : x.buffer.isListening (.visitor i) <;> simp [effort, hlistens]
  cases hact with
  | listened hvisit =>
    refine labour_stay hvisit (fun j u hji => ?_) ?_
    · have hsame : (x.buffer.listen (.visitor i)).isListening (.visitor j)
          = x.buffer.isListening (.visitor j) := by
        simp [Buffer.isListening, Buffer.mem_listen, hji]
      unfold effort
      rw [hsame]
    · simp [effort, Buffer.isListening, Buffer.mem_listen]
  | missed hvisit =>
    refine labour_stay hvisit (fun _ _ _ => le_rfl) ?_
    rcases hlistens : x.buffer.isListening (.visitor i) <;> simp [effort, hlistens]
  | woke hvisit htold =>
    refine labour_stay hvisit (fun _ _ _ => le_rfl) ?_
    simp [effort, htold]
  | admitted hvisit | dropped hvisit | popped hvisit => exact labour_leave hvisit heffort _

/-- Every turn is paid for. -/
theorem Run.length_add_labour (hrun : Run Act.IsTurn x ps y) :
    ps.length + y.labour ≤ x.labour := by
  induction hrun with
  | start => simp
  | act hrun hturn hact ih =>
    obtain ⟨i, rfl⟩ := hturn
    have hless := labour_turn (act_cases hact)
    rw [List.length_append, List.length_singleton]
    omega

/-! ### The invariant gives the law -/

/-- **Nobody waits for what is already there.**  Whatever calls are made, go on and are
given up, and whenever chunks are thrown away, a call that waits has been told of a change
or would look in vain; and when all that were told have run, which they do, all that still
wait would look in vain. -/
theorem attentive_of_run (hcapacity : 0 < capacity)
    (hrun : Run Act.Patient (.start n capacity hcapacity) ps x) : x.Attentive capacity := by
  have h := hrun.watchful hcapacity
  refine { h with settled := ?_, rests := ?_ }
  · intro hsettled i v hvisit
    obtain ⟨hphase, hlistens⟩ := act_turn_eq_none hvisit (hsettled i)
    obtain ⟨e, phase⟩ := v
    cases hphase
    exact ⟨rfl, h.asleep i e hvisit hlistens⟩
  · intro qs y hturns
    have hpaid := hturns.length_add_labour
    have hall := x.labour_le
    omega

/-- Room for one chunk, which does not fill up in order.  The chunk that is due is let in
beyond the capacity, and wakes everyone: the call that waited for it takes it out, and
wakes those once more that wait for room.  There is none yet. -/
theorem attentive_of_run_chain :
    let one (h : ℕ) : CompletedChunk := .bare ⟨h, h, le_rfl⟩
    let put (i : ℕ) (d : CompletedChunk) : List Act := [.call i (.push d), .turn i, .turn i]
    let again (i : ℕ) : List Act := [.turn i, .turn i, .turn i]
    let acts : List Act := [.call 0 .pop, .turn 0, .turn 0] ++ put 1 (one 3) ++ put 2 (one 4) ++
      put 3 (one 5) ++ put 4 (one 1) ++ again 2 ++ again 0 ++ again 2 ++ [.cancel 3] ++
      [.call 5 .pop, .turn 5, .turn 5]
    0 < 1 ∧ ∃ ps x, Run Act.Patient (.start 1 1 Nat.one_pos) ps x ∧
      (start 1 1 Nat.one_pos).after acts = some (ps, x) ∧ x.Attentive 1 ∧
      x.visits.entries.map (fun e => (e.1, e.2.phase)) = [(2, .waiting), (5, .waiting)] ∧
      x.buffer.listeners = [.visitor 2, .visitor 5] ∧
      x.buffer.chunks.keys = [3] ∧ x.buffer.nextCommit = 2 := by
  intro one put again acts
  have hacts : ∀ a ∈ acts, a.Patient := by simp [acts, put, again, Act.Patient]
  have hrun : ((start 1 1 Nat.one_pos).after acts).map (fun r =>
      (r.2.visits.entries.map (fun e => (e.1, e.2.phase)), r.2.buffer.listeners,
        r.2.buffer.chunks.keys, r.2.buffer.nextCommit))
      = some ([(2, .waiting), (5, .waiting)], [.visitor 2, .visitor 5], [3], 2) := by
    decide +kernel
  obtain ⟨⟨ps, x⟩, hafter, hstate⟩ := Option.map_eq_some_iff.mp hrun
  have hrun : Run Act.Patient (.start 1 1 Nat.one_pos) ([] ++ ps) x :=
    Run.after .start hacts hafter
  simp only [Prod.mk.injEq] at hstate
  exact ⟨Nat.one_pos, ps, x, hrun, hafter, attentive_of_run Nat.one_pos hrun, hstate⟩

end Traffic
end BlockIngest
