import BlockIngest.Proofs.Pipeline.Cancellation
import BlockIngest.Proofs.Planner.Shelf

/-!
# A worker that is ahead of the node

A worker may ask for a height that the node does not have: what was planned follows the
highest head that anyone has seen, and the node that answers may be behind it.  Then the
worker tells the planner how far the node is, gives its range back at once, and looks
for work.  No failed attempt is counted, and there is no pause; still the worker does not
get the same range again and again.  It gets it back only once someone else has seen a
head that reaches the end of the range.

The worker itself cannot bring that about.  What it is handed out next ends below the
range, and a height that is missing there says that the node is lower still.

## Main definitions

* `World.Below`, `World.Lags` — moves that leave the node behind a height.
* `World.Setback` — the law.

## Main results

* `Worker.exists_of_observe`, `Worker.range_step` — when a worker observes a head, and
  which range it fetches.
* `History.Shelves.move` — **a move that leaves the node behind leaves the range on the
  shelf.**
* `World.setback_of_run` — **a missing height puts its range off.**
-/

namespace BlockIngest

/-! ### Steps of a worker -/

namespace Worker

variable {settings : Settings} {id : ℕ} {s s' : Shared} {phase next : WorkerPhase}
  {signal : WorkerSignal} {job : FetchJob} {e : Failure} {n : ℕ}

/-- An attempt that fails ends with a decision. -/
theorem step_of_fails (h : Fails phase signal job e) :
    step settings id s phase signal = some (attemptFailed s job e) := by
  cases h with
  | noBlock | noResults => rfl
  | otherBlock hheight =>
    simp only [step, blockArrived, ne_eq, hheight, not_false_iff, if_true]
  | otherResults hassemble => simp only [step, resultsArrived, hassemble]

/-- A worker observes a head only when it lacks a height, and then the one below. -/
theorem exists_of_observe (h : Step settings id s phase signal next s')
    (hn : .observe n ∈ asks phase signal next) :
    ∃ job e k, Fails phase signal job e ∧ missing? e = some k ∧ n = Height.prev k := by
  cases h with
  | @behind phase signal job e k hfails hmissing =>
    rw [hfails.asks_ready, hfails.heads_eq, hmissing] at hn
    exact ⟨job, e, k, hfails, hmissing, by simpa using hn⟩
  | gaveUp hfails hmissing =>
    rw [hfails.asks_ready, hfails.heads_eq, hmissing] at hn
    simp at hn
  | abandoned hjob =>
    rw [asks_stopped_of_job? hjob] at hn
    simp at hn
  | stopped hphase =>
    obtain ⟨rfl, rfl⟩ | ⟨rfl, rfl⟩ := hphase <;> simp [asks, WorkerPhase.held?] at hn
  | paused hfails => cases hfails <;> simp [asks] at hn
  | panicked hcalling => obtain rfl | ⟨b, rfl⟩ := hcalling <;> simp [asks] at hn
  | rose | withdrew => simp [asks, heads, WorkerPhase.held?, WorkerPhase.job?] at hn
  | claimed | overflowed | rested | received | fetched | completed | misfit | retried | listened
  | admitted | dropped | refused | told => simp [asks] at hn

/-- The range that a worker fetches is the one it fetched before, or is handed out to
it. -/
theorem range_step (h : Step settings id s phase signal next s') (hjob : next.job? = some job) :
    (∃ before, phase.job? = some before ∧ job.range = before.range) ∨
      s.planner.next.1 = some job.range := by
  cases h with
  | claimed hrun hnext =>
    cases hjob
    exact Or.inr (congrArg Prod.fst hnext)
  | received | fetched | retried =>
    cases hjob
    exact Or.inl ⟨_, rfl, rfl⟩
  | paused hfails =>
    cases hjob
    exact Or.inl ⟨_, hfails.job?_eq, rfl⟩
  | stopped | overflowed | rested | rose | completed | misfit | gaveUp | behind | abandoned
  | panicked | listened | admitted | dropped | refused | told | withdrew => cases hjob

end Worker

/-! ### The law -/

namespace World

/-- A move that leaves the node behind the height `last`, as far as anyone but worker `id`
can tell; and that worker says truly which height is missing. -/
structure Below (id last : ℕ) (w : World) (m : Move) : Prop where
  /-- The heads that the refresher and other workers bring up are lower. -/
  others : (∀ signal, m ≠ .worker id signal) → ∀ n, .observe n ∈ w.asks m → n < last
  /-- A height that is missing for the worker lies in the range that it fetches. -/
  own : ∀ signal phase job e n, m = .worker id signal → w.workers[id]? = some phase →
    Worker.Fails phase signal job e → Worker.missing? e = some n → job.range.Mem n

/-- A run goes on by moves that leave the node behind. -/
inductive Lags (id last : ℕ) (w₀ : World) : World → Prop
  /-- Nothing has happened. -/
  | start : Lags id last w₀ w₀
  /-- One more move is made. -/
  | move {w w' : World} {m : Move} (hlags : Lags id last w₀ w) (hbelow : w.Below id last m)
      (hmove : w.move m = some w') : Lags id last w₀ w'

/-- What becomes of a range `r` that worker `id` was fetching in `w`, when it hears that
the height `n` is missing. -/
structure Setback (id : ℕ) (r : ChunkRange) (n : ℕ) (w w' : World) : Prop where
  /-- The worker looks for work. -/
  ready : w'.workers[id]? = some .ready
  /-- The planner notices that the head has moved back, -/
  noticed : (w.shared.planner.observe (Height.prev n)).1 = true
  /-- but keeps the highest one, -/
  head_eq : w'.shared.planner.head = w.shared.planner.head
  /-- and its cursor. -/
  cursor_eq : w'.shared.planner.cursor = w.shared.planner.cursor
  /-- The range is released as it is. -/
  released : w'.shared.planner.released = w.shared.planner.released.insert r.first r
  /-- It is not claimed any more, and all others are as before. -/
  claimed : w'.shared.planner.claimed = w.shared.planner.claimed.erase r.first
  /-- That is counted as a released range, and not as a failed attempt. -/
  counted : w'.shared.telemetry = w.shared.telemetry.releasedChunk
  /-- The range is not handed out again as long as the node is behind its end. -/
  waits : ∀ v, Lags id r.last w' v → v.shared.planner.next.1 ≠ some r ∧
    v.shared.planner.released.find? r.first = some r

end World

/-! ### The range stays on the shelf -/

namespace History

variable {low id : ℕ} {r : ChunkRange} {x x' : History} {m : Move}

theorem move_of_world {w' : World} (hmove : x.world.move m = some w') :
    x.move m = some ⟨w', x.custody.note x.world m w'⟩ := by
  unfold History.move
  rw [hmove]
  rfl

/-- A range is on the shelf, and worker `id` fetches nothing that reaches its end. -/
structure Shelves (low id : ℕ) (r : ChunkRange) (x : History) : Prop where
  kept : Kept low x
  shelved : x.world.shared.planner.Shelved r
  lower : ∀ phase job, x.world.workers[id]? = some phase → phase.job? = some job →
    job.range.last < r.last

/-- So it is once the worker looks for work. -/
theorem Kept.shelves (h : Kept low x) (hmove : x.move m = some x')
    (hshelved : x'.world.shared.planner.Shelved r) (hready : x'.world.workers[id]? = some .ready) :
    Shelves low id r x' := by
  refine ⟨h.move hmove, hshelved, fun phase job hphase hjob => ?_⟩
  cases hready.symm.trans hphase
  cases hjob

namespace Shelves

variable (h : Shelves low id r x)
include h

/-- Every head that is observed is below the end of the range. -/
theorem observed_lt {w' : World} (hbelow : x.world.Below id r.last m)
    (hmove : x.world.move m = some w') {n : ℕ} (hn : .observe n ∈ x.world.asks m) :
    n < r.last := by
  by_cases hother : ∀ signal, m ≠ .worker id signal
  · exact hbelow.others hother n hn
  · obtain ⟨signal, rfl⟩ : ∃ signal, m = .worker id signal := by simpa using hother
    cases World.move_cases hmove with
    | @worker _ phase next _ s hphase hstep =>
      have hlt : id < x.world.workers.length := (List.getElem?_eq_some_iff.mp hphase).1
      rw [World.asks_worker hmove hphase (List.getElem?_set_self hlt)] at hn
      -- the worker says how far the node is when it lacks a height of its own range
      obtain ⟨job, e, k, hfails, hmissing, rfl⟩ := Worker.exists_of_observe hstep hn
      obtain ⟨-, hlast⟩ := hbelow.own signal phase job e k rfl hphase hfails hmissing
      have hlow := h.lower phase job hphase hfails.job?_eq
      unfold Height.prev
      omega

/-- **A move that leaves the node behind leaves the range on the shelf.** -/
theorem move (hbelow : x.world.Below id r.last m) (hmove : x.move m = some x') :
    Shelves low id r x' := by
  have hworld := (move_eq_some hmove).1
  have hkept := h.kept.move hmove
  refine ⟨hkept, ?_, ?_⟩
  · have hshelved := h.shelved
    rw [← h.kept.custody.planner_eq] at hshelved
    have hnotes := hshelved.notes h.kept.custody.handed
      fun n hn => h.observed_lt hbelow hworld hn
    rwa [← record_move hmove, hkept.custody.planner_eq] at hnotes
  · obtain ⟨w', c'⟩ := x'
    intro phase' job' hphase' hjob'
    cases World.move_cases hworld with
    | @worker j phase next signal s hphase hstep =>
      by_cases hj : j = id
      · subst hj
        have hlt : j < x.world.workers.length := (List.getElem?_eq_some_iff.mp hphase).1
        have hself : (x.world.workers.set j next)[j]? = some next := List.getElem?_set_self hlt
        cases hself.symm.trans hphase'
        -- what it fetches it has fetched before, or the planner has just handed it out
        rcases Worker.range_step hstep hjob' with ⟨job, hjob, hrange⟩ | hnext
        · rw [hrange]
          exact h.lower phase job hphase hjob
        · exact h.shelved.lower hnext
      · have hother : (x.world.workers.set j next)[id]? = x.world.workers[id]? :=
          List.getElem?_set_ne hj
        exact h.lower phase' job' (hother.symm.trans hphase') hjob'
    | sequencer | heard | refreshed | cancelRun | cancelRoot =>
      exact h.lower phase' job' hphase' hjob'

/-- However long the node is behind. -/
theorem lags {v : World} (hlags : World.Lags id r.last x.world v) :
    ∃ y : History, y.world = v ∧ Shelves low id r y := by
  induction hlags with
  | start => exact ⟨x, rfl, h⟩
  | @move w w' m hlags hbelow hmove ih =>
    obtain ⟨y, rfl, hy⟩ := ih
    exact ⟨_, rfl, hy.move hbelow (move_of_world hmove)⟩

end Shelves
end History

/-! ### From a run to the law -/

namespace World

variable {settings : RunSettings} {standing : Standing} {root : Bool} {size capacity : ℕ}
  {hsize : 0 < size} {hcapacity : 0 < capacity} {slots : ℕ} {head : Except Failure ℕ}
  {ms : List Move} {w : World} {id : ℕ} {phase : WorkerPhase} {signal : WorkerSignal}
  {job : FetchJob} {e : Failure} {n : ℕ}

/-- In every run claimed and released ranges end at or below the head. -/
theorem headed_of_run
    (hrun : (resumed settings standing root hsize hcapacity slots head).after ms = some w) :
    w.shared.planner.Headed := by
  have hstart :
      (resumed settings standing root hsize hcapacity slots head).shared.planner.Headed := by
    have hfresh := Planner.headed_start (Height.prev (Height.resume standing.store.latestHeight))
      size hsize
    cases head with
    | error e => exact hfresh
    | ok n => exact hfresh.observe n
  rw [planner_after hrun]
  exact hstart.answers _

/-- A worker that lacks a height goes on at once. -/
theorem move_of_missing (hphase : w.workers[id]? = some phase)
    (hfails : Worker.Fails phase signal job e) (hmissing : Worker.missing? e = some n) :
    w.move (.worker id signal) = some { w with
      shared := (w.shared.observe (Height.prev n)).giveUp job.range
      workers := w.workers.set id .ready } := by
  have hstep : Worker.step w.settings.worker id w.shared phase signal
      = some (.ready, (w.shared.observe (Height.prev n)).giveUp job.range) := by
    rw [Worker.step_of_fails hfails, Worker.attemptFailed]
    simp only [hmissing]
  simp only [World.move, stepWorker, hphase, hstep]

/-- **A missing height puts its range off.**  In every run above what is stored, whatever
the heads, a worker whose node lacks a height of the claimed range that it fetches goes on
at once, and the range fares as `Setback` says. -/
theorem setback_of_run
    (hrun : (resumed settings standing root hsize hcapacity slots head).after ms = some w)
    (hphase : w.workers[id]? = some phase) (hfails : Worker.Fails phase signal job e)
    (hmissing : Worker.missing? e = some n) (hmem : job.range.Mem n)
    (hclaimed : w.shared.planner.isClaimed job.range) :
    ∃ w', w.move (.worker id signal) = some w' ∧ Setback id job.range n w w' := by
  have hworld := History.world_after
    (.resumed settings standing root hsize hcapacity slots head) ms
  obtain ⟨x, hx, rfl⟩ := Option.map_eq_some_iff.mp (hworld.trans hrun)
  have hkept := History.kept_after hx
  have hfind := Planner.isClaimed_iff.mp hclaimed
  have hpos : 0 < job.range.first := by
    have hissued := hkept.custody.handed.claimed_issued _ _
      (hkept.custody.planner_eq.symm ▸ hfind)
    exact Nat.zero_lt_of_lt (hkept.custody.handed.above _ hissued.2)
  obtain ⟨hobserve, hrelease, hshelved⟩ := (headed_of_run hrun).shelve hfind hpos hmem
  have hmove := move_of_missing hphase hfails hmissing
  have hlt : id < x.world.workers.length := (List.getElem?_eq_some_iff.mp hphase).1
  have hready : (x.world.workers.set id .ready)[id]? = some .ready := List.getElem?_set_self hlt
  have hgiveUp : (x.world.shared.observe (Height.prev n)).giveUp job.range
      = { x.world.shared with
          planner := ((x.world.shared.planner.observe (Height.prev n)).2.release job.range).2
          telemetry := x.world.shared.telemetry.releasedChunk } := by
    unfold Shared.giveUp Shared.observe
    simp only [hrelease]
  rw [hgiveUp] at hmove
  refine ⟨_, hmove, ?_⟩
  constructor
  case ready => exact hready
  case noticed => rw [hobserve]
  case head_eq => rw [hrelease]
  case cursor_eq => rw [hrelease]
  case released => rw [hrelease]
  case claimed => rw [hrelease]
  case counted => rfl
  case waits =>
    intro v hlags
    have hmove' := History.move_of_world hmove
    obtain ⟨y, rfl, hy⟩ := (hkept.shelves hmove' hshelved hready).lags hlags
    exact ⟨hy.shelved.next_ne, hy.shelved.released⟩

/-- A worker asks for a height above the node.  Its range is put off, also when the refresher
brings up a head just below its end, and is handed out again when the node has come up to
it. -/
theorem setback_of_run_lagging :
    let settings : RunSettings := ⟨⟨⟨1, 1, some 1⟩, 1⟩, ⟨1, 1, some 1⟩, true⟩
    let standing : Standing := ⟨.empty, .start 1 Nat.one_pos, .ofHeight? none, {}⟩
    let run := resumed settings standing false Nat.two_pos Nat.one_pos 1 (.ok 2)
    let job : FetchJob := .start ⟨1, 1, some 1⟩ ⟨1, 2, by decide⟩
    let e : Failure := .ofRpc (.heightNotFound 1)
    let later (head : ℕ) : List Move := [.worker 0 .turn, .worker 0 (.block (.error e)),
      .worker 0 .turn, .refresher .tick, .refresher (.head (.ok head))]
    ∃ w w', run.after [.worker 0 .turn] = some w ∧ w.workers[0]? = some (.awaitingBlock job) ∧
      Worker.Fails (.awaitingBlock job) (.block (.error e)) job e ∧
      Worker.missing? e = some 1 ∧ job.range.Mem 1 ∧ w.shared.planner.isClaimed job.range ∧
      w.move (.worker 0 (.block (.error e))) = some w' ∧ Setback 0 job.range 1 w w' ∧
      (run.after (later 1)).map (fun v => v.shared.planner.next.1) = some none ∧
      (run.after (later 2)).map (fun v => v.shared.planner.next.1) = some (some job.range) := by
  intro settings standing run job e later
  obtain ⟨w, hrun, hphase, hclaimed⟩ : ∃ w, run.after [.worker 0 .turn] = some w ∧
      w.workers[0]? = some (.awaitingBlock job) ∧ w.shared.planner.isClaimed job.range :=
    ⟨_, rfl, rfl, rfl⟩
  have hfails : Worker.Fails (.awaitingBlock job) (.block (.error e)) job e := .noBlock
  have hmem : job.range.Mem 1 := ⟨le_rfl, by decide⟩
  have hlow : (run.after (later 1)).map (fun v => v.shared.planner.next.1) = some none := by
    decide +kernel
  have hhigh : (run.after (later 2)).map (fun v => v.shared.planner.next.1)
      = some (some job.range) := by
    decide +kernel
  obtain ⟨w', hmove, hsetback⟩ := setback_of_run hrun hphase hfails rfl hmem hclaimed
  exact ⟨w, w', hrun, hphase, hfails, rfl, hmem, hclaimed, hmove, hsetback, hlow, hhigh⟩

end World
end BlockIngest
