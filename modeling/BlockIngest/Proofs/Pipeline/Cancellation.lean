import BlockIngest.Proofs.Commit.Trace
import BlockIngest.Proofs.Pipeline.Keeping
import BlockIngest.Proofs.Pipeline.Outward

/-!
# A run that is told to end

A task that waits notices the cancellation of its run when it goes on, and it need not
notice it first: an answer of the node may come before it, the end of a pause, or room
in the buffer.  Whatever comes first, nobody asks the planner for a range any more, and
the sequencer begins no attempt at a height.  Only the attempt that is under way goes
on, and if all its writes succeed, then its height is committed as the last one.

A worker that ends has parted with its range before.  So once all of them have ended,
and none has broken off, no range is claimed.

## Main definitions

* `World.asks`, `World.begun` — what a move asks of the planner, and the height at which
  it begins an attempt.
* `Finishes` — how far an attempt has come that was under way.
* `History.Ceases` — the law.

## Main results

* `Sequencer.Finishing.step`, `History.Kept.parts` — **what a step of a cancelled run
  keeps.**
* `History.ceases_of_run` — **how a run goes on that was cancelled.**
-/

namespace BlockIngest

/-! ### What is asked of the planner -/

namespace Planner

variable {p : Planner} {r : ChunkRange} {xs : List Call}

/-- Unless a range is asked for, no range is claimed that was not claimed before. -/
theorem claimed_of_answer {x : Call} (hx : x ≠ .next)
    (hr : (p.answer x).claimed.find? r.first = some r) : p.claimed.find? r.first = some r := by
  cases x with
  | next => exact absurd rfl hx
  | observe n =>
    obtain ⟨-, -, hclaimed, -⟩ := sameRanges_observe p n
    exact hclaimed ▸ hr
  | release u => exact (claimed_of_part (Or.inl rfl) hr).1
  | complete u => exact (claimed_of_part (Or.inr rfl) hr).1

theorem claimed_of_answers (hxs : .next ∉ xs)
    (hr : (xs.foldl answer p).claimed.find? r.first = some r) :
    p.claimed.find? r.first = some r := by
  induction xs generalizing p with
  | nil => exact hr
  | cons x xs ih =>
    have hnext : .next ≠ x ∧ .next ∉ xs := by simpa using hxs
    exact claimed_of_answer hnext.1.symm (ih hnext.2 hr)

/-- Nor is one handed out. -/
theorem Record.issued_of_notes {c : Record} (hxs : .next ∉ xs) :
    (xs.foldl Record.note c).issued = c.issued := by
  induction xs generalizing c with
  | nil => rfl
  | cons x xs ih =>
    have hnext : .next ≠ x ∧ .next ∉ xs := by simpa using hxs
    refine (ih hnext.2).trans ?_
    cases x with
    | next => exact absurd rfl hnext.1
    | observe | release | complete => rfl

end Planner

namespace Worker

variable {settings : Settings} {id : ℕ} {s s' : Shared} {phase next : WorkerPhase}
  {signal : WorkerSignal} {r : ChunkRange}

/-- **A worker keeps its range, breaks off, or parts with it**, and then the range is not
claimed. -/
theorem parts_step (h : Step settings id s phase signal next s') (hfits : phase.Fits)
    (hheld : phase.held? = some r) :
    next.held? = some r ∨ (∃ text, next = .exited (.panicked text)) ∨
      s'.planner.claimed.find? r.first ≠ some r := by
  have hplanner := planner_step h
  have hparted : ∀ (p : Planner) (x : Planner.Call), (x = .release r ∨ x = .complete r) →
      (p.answer x).claimed.find? r.first ≠ some r := fun p x hx hr =>
    (Planner.claimed_of_part hx hr).2 rfl
  have hnext := fits_step h hfits
  cases h with
  | claimed | overflowed | rested | rose => cases hheld
  | stopped hphase => obtain ⟨rfl, rfl⟩ | ⟨rfl, rfl⟩ := hphase <;> cases hheld
  | misfit => exact hnext.elim
  | received | fetched | retried | listened | refused | told => exact Or.inl hheld
  | completed hassemble hdone hmake =>
    exact Or.inl ((congrArg some (CompletedChunk.range_of_make hmake).1).trans hheld)
  | paused hfails =>
    exact Or.inl ((WorkerPhase.held?_of_job? hfails.job?_eq).symm.trans hheld)
  | panicked => exact Or.inr (Or.inl ⟨_, rfl⟩)
  | gaveUp hfails hmissing | behind hfails hmissing =>
    cases (WorkerPhase.held?_of_job? hfails.job?_eq).symm.trans hheld
    rw [hplanner, hfails.asks_ready, List.foldl_append]
    exact Or.inr (Or.inr (hparted _ _ (Or.inl rfl)))
  | abandoned hjob =>
    cases (WorkerPhase.held?_of_job? hjob).symm.trans hheld
    rw [hplanner, asks_stopped_of_job? hjob]
    exact Or.inr (Or.inr (hparted _ _ (Or.inl rfl)))
  | withdrew =>
    cases hheld
    exact Or.inr (Or.inr (hparted _ _ (Or.inl rfl)))
  | admitted | dropped =>
    cases hheld
    exact Or.inr (Or.inr (hparted _ _ (Or.inr rfl)))

end Worker

/-! ### The attempt under way -/

/-- How far an attempt at a height has come of which these writes were left: it is still
under way, a write has failed, or all have succeeded and the height is closed. -/
inductive Finishes (f : FetchedBlock) (ws : List Write) : List Effect → Prop
  | underWay {done rest : List Write} {w : Write} (hws : ws = done ++ w :: rest) :
      Finishes f ws (stored done)
  | failed {done rest : List Write} {w : Write} {e : Failure} (hws : ws = done ++ w :: rest) :
      Finishes f ws (stored done ++ [.wrote w (.error e)])
  | committed : Finishes f ws (stored ws ++ f.closing)

/-- Its height is committed, or nothing is. -/
theorem Finishes.commits {f : FetchedBlock} {ws : List Write} {es : List Effect}
    (h : Finishes f ws es) :
    marks es = [] ∧ published es = [] ∨
      es = stored ws ++ f.closing ∧ marks es = [f.height] ∧ published es = f.events := by
  cases h with
  | underWay => exact Or.inl (onlyWrites_stored _).silent
  | @failed done rest w e hws =>
    have hfailed : OnlyWrites [.wrote w (.error e)] := fun x hx =>
      ⟨w, .error e, List.mem_singleton.mp hx⟩
    exact Or.inl ((onlyWrites_stored done).append hfailed).silent
  | committed =>
    obtain ⟨hmarks, hpublished⟩ := (onlyWrites_stored ws).silent
    refine Or.inr ⟨rfl, ?_, ?_⟩
    · rw [marks_append, hmarks, marks_closing, List.nil_append]
    · rw [published_append, hpublished, published_closing, List.nil_append]

namespace Sequencer

variable {q q' : Sequencer} {s s' : Shared} {signal : SequencerSignal} {trace : List Effect}
  {start : SequencerPhase}

/-- What has been done since a phase in which the run was cancelled: the attempt that was
under way has gone on, or it has ended and no other one has begun. -/
def Finishing (start : SequencerPhase) (trace : List Effect) (phase : SequencerPhase) : Prop :=
  match start.pending? with
  | none => trace = [] ∧ phase.pending? = none
  | some (job, w, later) =>
      (∃ done w' later', w :: later.map .tx = done ++ w' :: later'.map .tx ∧
        trace = stored done ∧ phase.pending? = some (job, w', later')) ∨
      Finishes job.current (w :: later.map .tx) trace ∧ phase.pending? = none

theorem finishing_start (start : SequencerPhase) : Finishing start [] start := by
  unfold Finishing
  split
  · next hnone => exact ⟨rfl, hnone⟩
  · next job w later hpending => exact Or.inl ⟨[], w, later, rfl, rfl, hpending⟩

/-- Once the run is cancelled, no height is begun. -/
theorem pending?_beginHeight (hcancel : s.isCancelled) (q : Sequencer) (fs : List FetchedBlock) :
    (q.beginHeight s fs).phase.pending? = none := by
  cases fs with
  | nil => rfl
  | cons f later =>
    rw [beginHeight, if_pos hcancel]
    rfl

/-- Without an attempt under way, nothing is written any more. -/
theorem idle_step (hstep : Step q s signal q' s') (hcancel : s.isCancelled)
    (hnone : q.phase.pending? = none) : q'.phase.pending? = none ∧ q.effects signal = [] := by
  refine ⟨?_, effects_eq_nil hnone⟩
  cases hstep with
  | listened hphase hrun | took hphase hrun | brokeOff hphase hrun | missed hphase hrun
  | woke hphase hrun | retried hphase hrun => exact absurd hcancel hrun
  | left | stopped | ended => rfl
  | wrote hpending | stored hpending | paused hpending | gaveUp hpending =>
    rw [hnone] at hpending
    cases hpending

/-- **Every step keeps to the attempt that was under way.** -/
theorem Finishing.step (h : Finishing start trace q.phase) (hstep : Step q s signal q' s')
    (hcancel : s.isCancelled) : Finishing start (trace ++ q.effects signal) q'.phase := by
  unfold Finishing at h ⊢
  rcases hstart : start.pending? with _ | ⟨job, w, later⟩
  · simp only [hstart] at h ⊢
    obtain ⟨rfl, hnone⟩ := h
    obtain ⟨hnone', hquiet⟩ := idle_step hstep hcancel hnone
    exact ⟨hquiet, hnone'⟩
  · simp only [hstart] at h ⊢
    rcases h with ⟨done, v, rest, hws, rfl, hpending⟩ | ⟨hfinishes, hnone⟩
    · cases hstep with
      | listened hphase | took hphase | brokeOff hphase | missed hphase | woke hphase
      | retried hphase | left hphase | stopped hphase | ended hphase =>
        rw [hphase] at hpending
        cases hpending
      | @wrote _ _ tx after hwrote =>
        cases hpending.symm.trans hwrote
        rw [effects_wrote hwrote, ← stored_singleton, ← stored_append]
        exact Or.inl ⟨done ++ [v], .tx tx, after, by simp [hws], rfl, rfl⟩
      | stored hstored =>
        cases hpending.symm.trans hstored
        have hall : stored done ++ .wrote v (.ok ()) :: job.current.closing
            = stored (w :: later.map .tx) ++ job.current.closing := by
          rw [hws, List.map_nil, stored_append, stored_singleton, List.append_assoc,
            List.singleton_append]
        rw [effects_stored hstored, hall]
        exact Or.inr ⟨.committed, pending?_beginHeight hcancel _ _⟩
      | paused hpaused | gaveUp hpaused =>
        cases hpending.symm.trans hpaused
        rw [effects_failed hpaused]
        exact Or.inr ⟨.failed hws, rfl⟩
    · obtain ⟨hnone', hquiet⟩ := idle_step hstep hcancel hnone
      rw [hquiet, List.append_nil]
      exact Or.inr ⟨hfinishes, hnone'⟩

/-- However it stands, it finishes what was under way at most. -/
theorem Finishing.finishes {phase : SequencerPhase} (h : Finishing start trace phase)
    {job : CommitJob} {w : Write} {later : List TxResult}
    (hstart : start.pending? = some (job, w, later)) :
    Finishes job.current (w :: later.map .tx) trace := by
  unfold Finishing at h
  simp only [hstart] at h
  rcases h with ⟨done, v, rest, hws, rfl, -⟩ | ⟨hfinishes, -⟩
  · exact .underWay hws
  · exact hfinishes

theorem Finishing.quiet {phase : SequencerPhase} (h : Finishing start trace phase)
    (hstart : start.pending? = none) : trace = [] := by
  unfold Finishing at h
  simp only [hstart] at h
  exact h.1

/-- No attempt begins in a run that is cancelled. -/
theorem ne_savingBlock (hstep : Step q s signal q' s') (hcancel : s.isCancelled)
    (job : CommitJob) : q'.phase ≠ .savingBlock job := by
  have hbegin : ∀ (q : Sequencer) (s : Shared) fs, s.isCancelled →
      (q.beginHeight s fs).phase ≠ .savingBlock job := by
    intro q s fs hcancel hphase
    have hnone := pending?_beginHeight hcancel q fs
    rw [hphase] at hnone
    cases hnone
  cases hstep with
  | took hphase hrun | retried hphase hrun => exact absurd hcancel hrun
  | stored => exact hbegin _ _ _ hcancel
  | listened | brokeOff | missed | woke | left | wrote | paused | gaveUp | stopped | ended =>
    simp [goTo]

end Sequencer

/-! ### Moves -/

namespace World

variable {w w' : World} {m : Move} {ms : List Move}

/-- What a move asks of the planner. -/
def asks (w : World) (m : Move) : List Planner.Call :=
  match m with
  | .worker id signal =>
      match w.workers[id]?, (w.move m).bind fun w' => w'.workers[id]? with
      | some phase, some next => Worker.asks phase signal next
      | _, _ => []
  | .refresher (.head (.ok head)) => [.observe head]
  | _ => []

/-- The height at which a move begins an attempt. -/
def begun (w : World) : Move → List FetchedBlock
  | .sequencer signal =>
      match (w.stepSequencer signal).map sequencer with
      | some ⟨_, _, .savingBlock job⟩ => [job.current]
      | _ => []
  | _ => []

theorem asks_worker {id : ℕ} {signal : WorkerSignal} {phase next : WorkerPhase}
    (hmove : w.move (.worker id signal) = some w') (hphase : w.workers[id]? = some phase)
    (hnext : w'.workers[id]? = some next) :
    w.asks (.worker id signal) = Worker.asks phase signal next := by
  simp only [asks, hphase, hmove, Option.bind_some, hnext]

/-- The calls of a move account for the planner. -/
theorem planner_move (hmove : w.move m = some w') :
    w'.shared.planner = (w.asks m).foldl Planner.answer w.shared.planner := by
  cases move_cases hmove with
  | @worker id phase next signal s hphase hstep =>
    have hlt : id < w.workers.length := (List.getElem?_eq_some_iff.mp hphase).1
    rw [asks_worker hmove hphase (List.getElem?_set_self hlt)]
    exact (planner_attended _ _ _ _).trans (Worker.planner_step hstep)
  | sequencer hstep => exact (planner_closed _ _ _).trans (Sequencer.planner_step hstep)
  | @heard answer => cases answer <;> rfl
  | @refreshed signal phase hsignal =>
    cases signal with
    | head answer => exact absurd rfl (hsignal answer)
    | tick | cancel => rfl
  | cancelRun | cancelRoot => rfl

theorem planner_after (hrun : w.after ms = some w') :
    w'.shared.planner = (w.along asks ms).foldl Planner.answer w.shared.planner := by
  refine along_induction
    (P := fun xs v => v.shared.planner = xs.foldl Planner.answer w.shared.planner) hrun rfl ?_
  intro xs v m v' hv hmove
  rw [planner_move hmove, hv, List.foldl_append]

section Cancelled

variable (hcancel : w.shared.isCancelled)
include hcancel

theorem next_notMem_move (hmove : w.move m = some w') : .next ∉ w.asks m := by
  cases move_cases hmove with
  | @worker id phase next signal s hphase hstep =>
    have hlt : id < w.workers.length := (List.getElem?_eq_some_iff.mp hphase).1
    rw [asks_worker hmove hphase (List.getElem?_set_self hlt)]
    exact Worker.next_notMem_asks hstep hcancel
  | @heard answer => cases answer <;> simp [asks]
  | @refreshed signal phase hsignal =>
    cases signal with
    | head answer => exact absurd rfl (hsignal answer)
    | tick | cancel => simp [asks]
  | sequencer | cancelRun | cancelRoot => simp [asks]

theorem begun_move (hmove : w.move m = some w') : w.begun m = [] := by
  cases m with
  | sequencer signal =>
    obtain ⟨q, s, hstep, hw'⟩ := sequencer_of_move hmove
    have hmove : w.stepSequencer signal = some w' := hmove
    unfold begun
    simp only [hmove, Option.map_some]
    split
    · next policy nextCommit job hq =>
      have hphase : (closed w.settings q s).1.phase = .savingBlock job := by
        rw [hw'] at hq
        exact congrArg Sequencer.phase (Option.some.inj hq)
      rcases phase_closed w.settings q s with hsame | ⟨result, other, -, hother⟩
      · exact absurd (hsame.symm.trans hphase)
          (Sequencer.ne_savingBlock (Sequencer.step_cases hstep) hcancel job)
      · cases hother.symm.trans hphase
    · rfl
  | worker | refresher | cancelRun | cancelRoot => rfl

/-- **What a cancelled run does is to finish the attempt that was under way.** -/
theorem finishing_after (hrun : w.after ms = some w') :
    Sequencer.Finishing w.sequencer.phase (w.trace ms) w'.sequencer.phase := by
  have hkept := along_induction (g := effects) (P := fun t v =>
    v.shared.isCancelled ∧ Sequencer.Finishing w.sequencer.phase t v.sequencer.phase) hrun
    ⟨hcancel, Sequencer.finishing_start _⟩ ?_
  · exact hkept.2
  · intro t v m v' ⟨hcancel, hv⟩ hmove
    refine ⟨cancelled_move (move_cases hmove) hcancel, ?_⟩
    cases m with
    | sequencer signal =>
      obtain ⟨q, s, hstep, rfl⟩ := sequencer_of_move hmove
      have hq := hv.step (Sequencer.step_cases hstep) hcancel
      rcases phase_closed v.settings q s with hsame | ⟨result, other, hphase, hother⟩
      · exact hsame ▸ hq
      · -- an ended sequencer waits for no write, whatever it returns
        show Sequencer.Finishing _ _ (closed v.settings q s).1.phase
        rw [hphase] at hq
        rw [hother]
        exact hq
    | worker id signal =>
      cases move_cases hmove with
      | worker => exact (List.append_nil t).symm ▸ hv
    | refresher signal =>
      cases move_cases hmove with
      | heard | refreshed => exact (List.append_nil t).symm ▸ hv
    | cancelRun | cancelRoot =>
      cases hmove
      exact (List.append_nil t).symm ▸ hv

theorem next_notMem_after (hrun : w.after ms = some w') : .next ∉ w.along asks ms := by
  have hkept := along_induction (g := asks) (P := fun xs v =>
    v.shared.isCancelled ∧ .next ∉ xs) hrun ⟨hcancel, List.not_mem_nil⟩ ?_
  · exact hkept.2
  · intro xs v m v' ⟨hcancel, hv⟩ hmove
    refine ⟨cancelled_move (move_cases hmove) hcancel, ?_⟩
    simpa [hv] using next_notMem_move hcancel hmove

theorem begun_after (hrun : w.after ms = some w') : w.along begun ms = [] := by
  have hkept := along_induction (g := begun) (P := fun fs v =>
    v.shared.isCancelled ∧ fs = []) hrun ⟨hcancel, rfl⟩ ?_
  · exact hkept.2
  · intro fs v m v' ⟨hcancel, hv⟩ hmove
    refine ⟨cancelled_move (move_cases hmove) hcancel, ?_⟩
    rw [hv, begun_move hcancel hmove]
    rfl

end Cancelled

end World

/-! ### Ranges -/

/-- A worker has ended, and has not broken off. -/
def WorkerPhase.Resigned (phase : WorkerPhase) : Prop :=
  ∃ exit, phase = .exited exit ∧ ∀ text, exit ≠ .panicked text

namespace History

variable {x x' : History} {m : Move} {ms : List Move} {low : ℕ} {id : ℕ} {r : ChunkRange}

/-- What custody takes note of are the calls of a move. -/
theorem record_move (hmove : x.move m = some x') :
    x'.custody.record = (x.world.asks m).foldl Planner.Record.note x.custody.record := by
  obtain ⟨w, c⟩ := x
  obtain ⟨w', c'⟩ := x'
  obtain ⟨hworld, hcustody⟩ := move_eq_some hmove
  simp only at hworld hcustody
  subst hcustody
  cases World.move_cases hworld with
  | @worker id phase next signal s hphase hstep =>
    have hlt : id < w.workers.length := (List.getElem?_eq_some_iff.mp hphase).1
    have hnext := List.getElem?_set_self (a := next) hlt
    rw [Custody.note_worker hphase hnext, World.asks_worker hworld hphase hnext]
    rfl
  | @heard answer => cases answer <;> rfl
  | @refreshed signal phase hsignal =>
    cases signal with
    | head answer => exact absurd rfl (hsignal answer)
    | tick | cancel => rfl
  | sequencer | cancelRun | cancelRoot => rfl

/-- A worker that had a range keeps it, or the range is not claimed any more. -/
def Parts (id : ℕ) (r : ChunkRange) (x : History) : Prop :=
  x.custody.holding[id]? = some (some r) ∨ x.world.shared.planner.claimed.find? r.first ≠ some r

theorem Kept.parts (h : Kept low x) (hcancel : x.world.shared.isCancelled)
    (hmove : x.move m = some x') (hparts : x.Parts id r) : x'.Parts id r := by
  have hworld := (move_eq_some hmove).1
  rcases hparts with hid | hfree
  · obtain ⟨w, c⟩ := x
    obtain ⟨w', c'⟩ := x'
    obtain ⟨-, hcustody⟩ := move_eq_some hmove
    simp only at hworld hcustody hid
    subst hcustody
    cases World.move_cases hworld with
    | @worker id' phase next signal s hphase hstep =>
      have hlt : id' < w.workers.length := (List.getElem?_eq_some_iff.mp hphase).1
      rw [Custody.note_worker hphase (List.getElem?_set_self hlt)]
      by_cases hne : id = id'
      · subst hne
        have hlt' : id < c.holding.length := h.held.length_eq ▸ hlt
        have hheld : phase.held? = some r :=
          Option.some.inj ((h.held.of_step hphase hstep).symm.trans hid)
        have hfits := h.held.fits phase (List.mem_of_getElem? hphase)
        rcases Worker.parts_step hstep hfits hheld with hkeeps | ⟨text, rfl⟩ | hfree
        · refine Or.inl ((Custody.holding_work_self hlt' ?_).trans (congrArg some hkeeps))
          rintro text rfl
          cases hkeeps
        · refine Or.inl ?_
          rwa [Custody.holding_work_of_held hheld]
        · refine Or.inr ?_
          show (World.attended _ _ _ _).planner.claimed.find? _ ≠ _
          rwa [World.planner_attended]
      · exact Or.inl ((Custody.holding_work_of_ne hne).trans hid)
    | sequencer | cancelRun | cancelRoot => exact Or.inl hid
    | @heard answer => cases answer <;> exact Or.inl hid
    | @refreshed signal =>
      cases signal with
      | head answer => cases answer <;> exact Or.inl hid
      | tick | cancel => exact Or.inl hid
  · refine Or.inr fun hclaimed => hfree ?_
    rw [World.planner_move hworld] at hclaimed
    exact Planner.claimed_of_answers (World.next_notMem_move hcancel hworld) hclaimed

/-! ### The law -/

/-- A range is not claimed; it is released, or completed and its chunk was let in. -/
def Settled (x : History) (r : ChunkRange) : Prop :=
  r ∉ x.world.shared.planner.claimed.values ∧
    (r ∈ x.world.shared.planner.released.values ∨
      r ∈ x.custody.record.completed ∧ ∃ d ∈ x.custody.accepted x.world.shared, d.range = r)

/-- **How a cancelled run goes on**, from `x` on through moves `ms` up to `x'`. -/
structure Ceases (x : History) (ms : List Move) (x' : History) : Prop where
  /-- It stays cancelled. -/
  cancelled : x'.world.shared.isCancelled
  /-- The calls to the planner account for it. -/
  planner_eq : x'.world.shared.planner
    = (x.world.along World.asks ms).foldl Planner.answer x.world.shared.planner
  /-- None of them asks for a range: -/
  next_notMem : .next ∉ x.world.along World.asks ms
  /-- no range is claimed that was not claimed before, -/
  claimed_subset : x'.world.shared.planner.claimed.values ⊆ x.world.shared.planner.claimed.values
  /-- and none is handed out for the first time. -/
  issued_eq : x'.custody.record.issued = x.custody.record.issued
  /-- The trace accounts for the store, the progress and the publisher. -/
  ledger_eq : x'.world.shared.ledger = x.world.shared.ledger.after (x.world.trace ms)
  /-- No attempt at a height is begun. -/
  begun_eq : x.world.along World.begun ms = []
  /-- Without an attempt under way nothing is written, marked or published. -/
  quiet : x.world.sequencer.phase.pending? = none → x.world.trace ms = []
  /-- Otherwise this attempt goes on, and that is all. -/
  finishes : ∀ job w later, x.world.sequencer.phase.pending? = some (job, w, later) →
    Finishes job.current (w :: later.map .tx) (x.world.trace ms)
  /-- At most its height is marked and its events are published, and only if all writes that
  were left have succeeded. -/
  commits : marks (x.world.trace ms) = [] ∧ published (x.world.trace ms) = [] ∨
    ∃ job w later, x.world.sequencer.phase.pending? = some (job, w, later) ∧
      x.world.trace ms = stored (w :: later.map .tx) ++ job.current.closing ∧
      marks (x.world.trace ms) = [job.current.height] ∧
      published (x.world.trace ms) = job.current.events
  /-- What a worker had before it ended is released, or completed and let in, unless it has
  broken off. -/
  parted : ∀ (id : ℕ) (phase phase' : WorkerPhase) (r : ChunkRange),
    x.world.workers[id]? = some phase → phase.held? = some r →
      x'.world.workers[id]? = some phase' → phase'.Resigned → x'.Settled r
  /-- Once all workers have ended, and none has broken off, no range is claimed, and all of
  them are released or completed. -/
  vacated : (∀ phase ∈ x'.world.workers, phase.Resigned) →
    x'.world.shared.planner.claimed.values = [] ∧
      ∀ r ∈ x'.custody.record.issued, x'.Settled r

namespace Kept

variable (h : Kept low x)
include h

/-- A range is claimed under its lowest height. -/
theorem find?_of_claimed (hr : r ∈ x.world.shared.planner.claimed.values) :
    x.world.shared.planner.claimed.find? r.first = some r := by
  obtain ⟨k, hk⟩ := HeightMap.mem_values.mp hr
  have hfirst := (h.custody.handed.claimed_issued k r (h.custody.planner_eq ▸ hk)).1
  exact hfirst ▸ hk

/-- A range that is not claimed is settled. -/
theorem settled (hr : r ∈ x.custody.record.issued)
    (hfree : x.world.shared.planner.claimed.find? r.first ≠ some r) : x.Settled r := by
  refine ⟨fun hin => hfree (h.find?_of_claimed hin), ?_⟩
  have hplaced := h.custody.handed.placed r hr
  rw [h.custody.planner_eq] at hplaced
  rcases hplaced with hclaimed | hreleased | hcompleted
  · exact absurd hclaimed hfree
  · exact Or.inl (HeightMap.mem_values.mpr ⟨_, hreleased⟩)
  · exact Or.inr ⟨hcompleted, h.custody.completed_accepted r hcompleted⟩

/-- A worker that has ended without breaking off holds nothing. -/
theorem holding_of_resigned {phase : WorkerPhase} (hphase : x.world.workers[id]? = some phase)
    (hresigned : phase.Resigned) : x.custody.holding[id]? = some none := by
  obtain ⟨exit, rfl, hexit⟩ := hresigned
  refine h.held.holding_eq id _ hphase fun text heq => ?_
  cases heq
  exact hexit text rfl

/-- If no worker holds anything, no range is claimed. -/
theorem vacated (hall : ∀ phase ∈ x.world.workers, phase.Resigned) :
    x.world.shared.planner.claimed.values = [] ∧
      ∀ r ∈ x.custody.record.issued, x.Settled r := by
  have hnone : ∀ r : ChunkRange, x.world.shared.planner.claimed.find? r.first ≠ some r := by
    intro r hr
    obtain ⟨id, hid⟩ := h.custody.claimed_held r hr
    have hlt : id < x.world.workers.length :=
      h.held.length_eq ▸ (List.getElem?_eq_some_iff.mp hid).1
    have hphase := List.getElem?_eq_getElem hlt
    cases hid.symm.trans (h.holding_of_resigned hphase (hall _ (List.getElem_mem hlt)))
  refine ⟨List.eq_nil_iff_forall_not_mem.mpr fun r hr => hnone r (h.find?_of_claimed hr), ?_⟩
  exact fun r hr => h.settled hr (hnone r)

/-- **The invariant gives the law.** -/
theorem ceases (hcancel : x.world.shared.isCancelled) (hrun : x.after ms = some x') :
    x.Ceases ms x' := by
  have hworld : x.world.after ms = some x'.world := by
    rw [← world_after, hrun]
    rfl
  have hkept : Kept low x' ∧ x'.world.shared.isCancelled ∧
      x'.custody.record.issued = x.custody.record.issued ∧
      ∀ (id : ℕ) (r : ChunkRange), x.Parts id r → x'.Parts id r := by
    refine foldlM_induction (P := fun v => Kept low v ∧ v.world.shared.isCancelled ∧
      v.custody.record.issued = x.custody.record.issued ∧
      ∀ (id : ℕ) (r : ChunkRange), x.Parts id r → v.Parts id r) hrun
      ⟨h, hcancel, rfl, fun _ _ => id⟩ ?_
    intro m _ v v' ⟨hv, hcancel, hissued, hparts⟩ hmove
    have hmoved := (move_eq_some hmove).1
    refine ⟨hv.move hmove, World.cancelled_move (World.move_cases hmoved) hcancel, ?_, ?_⟩
    · rw [record_move hmove, Planner.Record.issued_of_notes (World.next_notMem_move hcancel hmoved),
        hissued]
    · exact fun id r hr => hv.parts hcancel hmove (hparts id r hr)
  obtain ⟨h', hcancel', hissued, hparts⟩ := hkept
  have hnext := World.next_notMem_after hcancel hworld
  have hplanner := World.planner_after hworld
  have hfinishing := World.finishing_after hcancel hworld
  constructor
  case cancelled => exact hcancel'
  case planner_eq => exact hplanner
  case next_notMem => exact hnext
  case claimed_subset =>
    intro r hr
    have hfind := h'.find?_of_claimed hr
    rw [hplanner] at hfind
    exact HeightMap.mem_values.mpr ⟨_, Planner.claimed_of_answers hnext hfind⟩
  case issued_eq => exact hissued
  case ledger_eq => exact World.ledger_after hworld
  case begun_eq => exact World.begun_after hcancel hworld
  case quiet => exact hfinishing.quiet
  case finishes => exact fun job w later hpending => hfinishing.finishes hpending
  case commits =>
    rcases hpending : x.world.sequencer.phase.pending? with _ | ⟨job, w, later⟩
    · rw [hfinishing.quiet hpending]
      exact Or.inl ⟨rfl, rfl⟩
    · refine (hfinishing.finishes hpending).commits.imp_right ?_
      rintro ⟨htrace, hmarks, hpublished⟩
      exact ⟨job, w, later, rfl, htrace, hmarks, hpublished⟩
  case parted =>
    intro id phase phase' r hphase hheld hphase' hresigned
    have hrun : ∀ text, phase ≠ .exited (.panicked text) := by
      rintro text rfl
      cases hheld
    have hid : x.custody.holding[id]? = some (some r) :=
      hheld ▸ h.held.holding_eq id phase hphase hrun
    have hr : r ∈ x'.custody.record.issued := hissued.symm ▸ h.custody.held_issued id r hid
    refine h'.settled hr ((hparts id r (Or.inl hid)).resolve_left fun hid' => ?_)
    cases hid'.symm.trans (h'.holding_of_resigned hphase' hresigned)
  case vacated => exact h'.vacated

end Kept

variable {settings : RunSettings} {standing : Standing} {root : Bool} {size capacity : ℕ}
  {hsize : 0 < size} {hcapacity : 0 < capacity} {slots : ℕ} {head : Except Failure ℕ}

/-- **How a run goes on that was cancelled.**  Every run above what is stored, with any number
of workers, whatever the node has answered, has a history; and from any state in which it is
cancelled it goes on as `Ceases` says, whatever is moved next. -/
theorem ceases_of_run {ms ns : List Move} {w w' : World}
    (hrun : (World.resumed settings standing root hsize hcapacity slots head).after ms = some w)
    (hcancel : w.shared.isCancelled) (hlater : w.after ns = some w') :
    ∃ x x', (resumed settings standing root hsize hcapacity slots head).after ms = some x ∧
      x.world = w ∧ x.after ns = some x' ∧ x'.world = w' ∧ x.Ceases ns x' := by
  have hworld := world_after (resumed settings standing root hsize hcapacity slots head) ms
  obtain ⟨x, hx, rfl⟩ := Option.map_eq_some_iff.mp (hworld.trans hrun)
  obtain ⟨x', hx', rfl⟩ := Option.map_eq_some_iff.mp ((world_after x ns).trans hlater)
  exact ⟨x, x', hx, rfl, hx', rfl, (kept_after hx).ceases hcancel hx'⟩

/-- The run is cancelled while the first height is being written and the second one is
fetched.  The write succeeds, the block of the second height arrives, and all tasks end:
the first height is committed, and the second one is released. -/
theorem ceases_of_run_writing :
    let settings : RunSettings := ⟨⟨⟨1, 1, some 1⟩, 1⟩, ⟨1, 1, some 1⟩, true⟩
    let standing : Standing := ⟨.empty, .start 1 Nat.one_pos, .ofHeight? none, {}⟩
    let moves : List Move := [.worker 0 .turn, .worker 1 .turn,
      .worker 0 (.block (.ok ⟨1, "", "", "", [], .null⟩)), .worker 0 (.results (.ok ⟨1, []⟩)),
      .worker 0 .turn, .worker 0 .turn, .sequencer .turn, .sequencer .turn, .cancelRun]
    let later : List Move := [.worker 1 (.block (.ok ⟨2, "", "", "", [], .null⟩)),
      .sequencer (.written (.ok ())), .worker 0 .turn, .sequencer .cancel, .sequencer .turn,
      .worker 1 .cancel]
    let run := World.resumed settings standing false Nat.one_pos Nat.one_pos 2 (.ok 9)
    ∃ w w', run.after moves = some w ∧ w.shared.isCancelled ∧ w.after later = some w' ∧
      ∃ x x' : History, x.world = w ∧ x'.world = w' ∧ x.Ceases later x' ∧
        marks (w.trace later) = [1] ∧ w'.shared.planner.claimed.values = [] ∧
        w'.shared.planner.released.values = [⟨2, 2, le_rfl⟩] ∧
        x'.custody.record.completed = [⟨1, 1, le_rfl⟩] := by
  intro settings standing moves later run
  let start := resumed settings standing false Nat.one_pos Nat.one_pos 2 (.ok 9)
  have hcancelled : (run.after moves).map (fun w => (w.shared.isCancelled, marks (w.trace later)))
      = some (true, [1]) := by
    decide +kernel
  have hended : ((start.after moves).bind fun x => x.after later).map (fun x =>
      (x.world.shared.planner.claimed.values, x.world.shared.planner.released.values,
        x.custody.record.completed)) = some ([], [⟨2, 2, le_rfl⟩], [⟨1, 1, le_rfl⟩]) := by
    decide +kernel
  have hlater : ((run.after moves).bind fun w => w.after later).isSome := by decide +kernel
  obtain ⟨w, hw, hstate⟩ := Option.map_eq_some_iff.mp hcancelled
  obtain ⟨hcancel, hmarks⟩ := Prod.mk.inj hstate
  rw [hw, Option.bind_some] at hlater
  obtain ⟨w', hw'⟩ := Option.isSome_iff_exists.mp hlater
  obtain ⟨x, x', hx, hxw, hx', hxw', hceases⟩ := ceases_of_run hw hcancel hw'
  have hstart : start.after moves = some x := hx
  rw [hstart, Option.bind_some, hx', Option.map_some, Option.some.injEq, Prod.mk.injEq,
    Prod.mk.injEq] at hended
  obtain ⟨hclaimed, hreleased, hcompleted⟩ := hended
  subst hxw'
  exact ⟨w, x'.world, hw, hcancel, hw', x, x', hxw, rfl, hceases, hmarks, hclaimed, hreleased,
    hcompleted⟩

end History
end BlockIngest
