import BlockIngest.Proofs.Fetch.Step
import BlockIngest.Proofs.Pipeline.Run

/-!
# Moves of a run, whatever the node answers

A run over a chain was followed with the answers of that chain alone.  Here a node
may answer anything, differently every time, and not at all; what a run does then
is a list of moves, in any order.

A move is the step of one task, with what supervision makes of a task that ends.
Supervision changes how the run ends, and nothing else that tasks share.

## Main definitions

* `World.after` — a run after moves, one after the other.
* `World.Moved` — the moves, each with the step of its task.
* `Move.Bounded` — a move that brings up no head at the top.

## Main results

* `World.move_cases` — **a move is one of those listed.**
* `World.after_induction` — what every move keeps is kept by all of them.
-/

namespace BlockIngest

/-- Whether the heads that a move brings up are below the top.  A node that does not
have a height has a head below it. -/
def Move.Bounded : Move → Prop
  | .worker _ (.block (.error e)) => e.Bounded
  | .worker _ (.results (.error e)) => e.Bounded
  | .refresher (.head answer) => Refresher.Bounded answer
  | _ => True

/-- What every step keeps is kept by steps made one after the other. -/
theorem foldlM_induction {α β : Type} {f : α → β → Option α} {P : α → Prop} {bs : List β}
    {a a' : α} (h : bs.foldlM f a = some a') (hstart : P a)
    (hstep : ∀ b ∈ bs, ∀ x x', P x → f x b = some x' → P x') : P a' := by
  induction bs generalizing a with
  | nil =>
    cases h
    exact hstart
  | cons b bs ih =>
    rw [List.foldlM_cons] at h
    obtain ⟨x, hx, hlater⟩ := Option.bind_eq_some_iff.mp h
    refine ih hlater (hstep b List.mem_cons_self a x hstart hx) ?_
    exact fun b' hb' => hstep b' (List.mem_cons_of_mem b hb')

namespace World

variable {w w' : World} {m : Move}

/-- A run after moves, one after the other; nothing if a task cannot go on that way. -/
def after (w : World) (ms : List Move) : Option World := ms.foldlM World.move w

/-! ### The moves -/

/-- What tasks share once a worker has come to a phase: if it has ended in failure, the
run ends. -/
def attended (settings : RunSettings) (id : ℕ) (next : WorkerPhase) (s : Shared) : Shared :=
  match next with
  | .exited exit => workerEnded settings id exit s
  | _ => s

theorem attended_of_running {settings : RunSettings} {id : ℕ} {next : WorkerPhase} {s : Shared}
    (h : ∀ exit, next ≠ .exited exit) : attended settings id next s = s := by
  unfold attended
  split
  · next exit => exact absurd rfl (h exit)
  · rfl

/-- The counter of workers once one of them has come to a phase. -/
def remaining (active : ℕ) : WorkerPhase → ℕ
  | .exited _ => active - 1
  | _ => active

theorem remaining_of_running {active : ℕ} {next : WorkerPhase} (h : ∀ exit, next ≠ .exited exit) :
    remaining active next = active := by
  cases next with
  | exited exit => exact absurd rfl (h exit)
  | ready | idle | awaitingBlock | awaitingResults | pausing | submitting => rfl

/-- The sequencer and what tasks share once it has come to a phase: if it has ended in
failure, the run ends. -/
def closed (settings : RunSettings) (q : Sequencer) (s : Shared) : Sequencer × Shared :=
  match q.phase with
  | .exited result =>
      (q.goTo (.exited (sequencerEnded settings result s).1), (sequencerEnded settings result s).2)
  | _ => (q, s)

/-- The moves of a run. -/
inductive Moved (w : World) : Move → World → Prop
  /-- A worker does a step. -/
  | worker {id : ℕ} {phase next : WorkerPhase} {signal : WorkerSignal} {s : Shared}
      (hphase : w.workers[id]? = some phase)
      (hstep : Worker.Step w.settings.worker id w.shared phase signal next s) :
      Moved w (.worker id signal)
        { w with
          shared := attended w.settings id next s
          workers := w.workers.set id next
          activeWorkers := remaining w.activeWorkers next }
  /-- The sequencer does a step. -/
  | sequencer {signal : SequencerSignal} {q : Sequencer} {s : Shared}
      (hstep : Sequencer.Step w.sequencer w.shared signal q s) :
      Moved w (.sequencer signal)
        { w with
          shared := (closed w.settings q s).2
          sequencer := (closed w.settings q s).1 }
  /-- The refresher hears from the node. -/
  | heard {answer : Except Failure ℕ} {phase : RefresherPhase} :
      Moved w (.refresher (.head answer))
        { w with shared := Refresher.heard w.shared answer, refresher := phase }
  /-- The refresher does any other step. -/
  | refreshed {signal : RefresherSignal} {phase : RefresherPhase}
      (hsignal : ∀ answer, signal ≠ .head answer) :
      Moved w (.refresher signal) { w with refresher := phase }
  /-- The token of the run is cancelled. -/
  | cancelRun : Moved w .cancelRun w.cancelRun
  /-- The root token is cancelled. -/
  | cancelRoot : Moved w .cancelRoot w.cancelRoot

theorem moved_of_stepWorker {id : ℕ} {signal : WorkerSignal}
    (h : w.stepWorker id signal = some w') : w.Moved (.worker id signal) w' := by
  unfold stepWorker at h
  rcases hphase : w.workers[id]? with _ | phase
  · rw [hphase] at h
    cases h
  · rw [hphase] at h
    simp only at h
    split at h
    · cases h
    · next exit s hout =>
      cases h
      exact .worker hphase (Worker.step_cases hout)
    · next next s hrun hout =>
      cases h
      have hmoved := Moved.worker hphase (Worker.step_cases hout)
      rw [attended_of_running hrun, remaining_of_running hrun] at hmoved
      exact hmoved

theorem moved_of_stepSequencer {signal : SequencerSignal}
    (h : w.stepSequencer signal = some w') : w.Moved (.sequencer signal) w' := by
  unfold stepSequencer at h
  rcases hout : w.sequencer.step w.shared signal with _ | ⟨q, s⟩
  · rw [hout] at h
    cases h
  · rw [hout] at h
    simp only at h
    have hstep := Sequencer.step_cases hout
    split at h
    · next result hphase =>
      have hclosed : closed w.settings q s
          = (q.goTo (.exited (sequencerEnded w.settings result s).1),
            (sequencerEnded w.settings result s).2) := by
        unfold closed
        rw [hphase]
      have hmoved := Moved.sequencer hstep
      rw [hclosed] at hmoved
      cases h
      exact hmoved
    · next hrun =>
      have hclosed : closed w.settings q s = (q, s) := by
        unfold closed
        split
        · next result hphase => exact absurd hphase (hrun result)
        · rfl
      have hmoved := Moved.sequencer hstep
      rw [hclosed] at hmoved
      cases h
      exact hmoved

theorem moved_of_stepRefresher {signal : RefresherSignal}
    (h : w.stepRefresher signal = some w') : w.Moved (.refresher signal) w' := by
  unfold stepRefresher Refresher.step at h
  split at h
  · cases h
  · next phase s hout =>
    cases h
    split at hout
    case h_2 answer =>
      cases hout
      exact .heard
    case h_1 =>
      cases hout
      exact .refreshed (by simp)
    case h_3 | h_4 =>
      split at hout
      · cases hout
        exact .refreshed (by simp)
      · cases hout
    case h_5 => cases hout

/-- **A move is one of those listed.** -/
theorem move_cases (h : w.move m = some w') : w.Moved m w' := by
  cases m with
  | worker id signal => exact moved_of_stepWorker h
  | sequencer signal => exact moved_of_stepSequencer h
  | refresher signal => exact moved_of_stepRefresher h
  | cancelRun =>
    cases h
    exact .cancelRun
  | cancelRoot =>
    cases h
    exact .cancelRoot

theorem length_workers_move (hmove : w.Moved m w') : w'.workers.length = w.workers.length := by
  cases hmove with
  | worker => exact List.length_set
  | sequencer | heard | refreshed | cancelRun | cancelRoot => rfl

/-- **What every move keeps is kept by all of them.** -/
theorem after_induction {P : World → Prop} {ms : List Move} (h : w.after ms = some w')
    (hstart : P w) (hmove : ∀ m ∈ ms, ∀ v v', P v → v.Moved m v' → P v') : P w' :=
  foldlM_induction h hstart fun m hm v v' hv hv' => hmove m hm v v' hv (move_cases hv')

/-! ### Supervision -/

/-- What tasks share before and after something that at most tells the run to end. -/
structure Ends (s s' : Shared) : Prop where
  planner_eq : s'.planner = s.planner
  buffer_eq : s'.buffer = s.buffer
  cancelled : s.isCancelled → s'.isCancelled

theorem Ends.refl (s : Shared) : Ends s s := ⟨rfl, rfl, id⟩

theorem run_capture {s : Shutdown} (h : s.run) (origin : FatalOrigin) (failure : Failure) :
    (s.capture origin failure).2.run := by
  unfold Shutdown.capture
  split
  · exact h
  · rfl

theorem ends_capture (s : Shared) (origin : FatalOrigin) (failure : Failure) :
    Ends s { s with shutdown := (s.shutdown.capture origin failure).2 } :=
  ⟨rfl, rfl, fun h => run_capture h origin failure⟩

/-- Supervision of a worker at most tells the run to end. -/
theorem ends_attended (settings : RunSettings) (id : ℕ) (next : WorkerPhase) (s : Shared) :
    Ends s (attended settings id next s) := by
  unfold attended
  split
  · unfold workerEnded
    split
    · split
      · rw [Shutdown.taskFailed_eq]
        exact ends_capture _ _ _
      · exact .refl s
    · exact .refl s
  · exact .refl s

/-- So does supervision of the sequencer. -/
theorem ends_closed (settings : RunSettings) (q : Sequencer) (s : Shared) :
    Ends s (closed settings q s).2 := by
  unfold closed
  split
  · unfold sequencerEnded
    split
    · exact .refl s
    · split
      · rw [Shutdown.taskFailed_eq]
        exact ends_capture _ _ _
      · exact .refl s
  · exact .refl s

@[simp] theorem planner_attended (settings : RunSettings) (id : ℕ) (next : WorkerPhase)
    (s : Shared) : (attended settings id next s).planner = s.planner :=
  (ends_attended settings id next s).planner_eq

@[simp] theorem buffer_attended (settings : RunSettings) (id : ℕ) (next : WorkerPhase)
    (s : Shared) : (attended settings id next s).buffer = s.buffer :=
  (ends_attended settings id next s).buffer_eq

@[simp] theorem planner_closed (settings : RunSettings) (q : Sequencer) (s : Shared) :
    (closed settings q s).2.planner = s.planner :=
  (ends_closed settings q s).planner_eq

@[simp] theorem buffer_closed (settings : RunSettings) (q : Sequencer) (s : Shared) :
    (closed settings q s).2.buffer = s.buffer :=
  (ends_closed settings q s).buffer_eq

@[simp] theorem nextCommit_closed (settings : RunSettings) (q : Sequencer) (s : Shared) :
    (closed settings q s).1.nextCommit = q.nextCommit := by
  unfold closed
  split <;> rfl

/-- A sequencer that has ended may return something else; any other one goes on as it
is. -/
theorem phase_closed (settings : RunSettings) (q : Sequencer) (s : Shared) :
    (closed settings q s).1.phase = q.phase ∨
      ∃ result other, q.phase = .exited result ∧
        (closed settings q s).1.phase = .exited other := by
  unfold closed
  split
  · next result hphase => exact Or.inr ⟨result, _, hphase, rfl⟩
  · exact Or.inl rfl

end World
end BlockIngest
