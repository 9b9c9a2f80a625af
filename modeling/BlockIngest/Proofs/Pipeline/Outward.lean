import BlockIngest.Proofs.Pipeline.Supervision

/-!
# What a run does to the world outside

Of all tasks the sequencer alone touches the ledger, and its effects account for
whatever becomes of it.  What a run does over many moves is put together move by move;
the same goes for anything else that is read off a move.

## Main definitions

* `World.along` — what is read off moves, one after the other.
* `World.trace` — what moves do to the world outside.

## Main results

* `World.ledger_after` — **the trace of a run accounts for the ledger.**
-/

namespace BlockIngest

namespace Worker

variable {settings : Settings} {id : ℕ} {s s' : Shared} {phase next : WorkerPhase}
  {signal : WorkerSignal}

@[simp] theorem retries_countFailure (e : Failure) (t : Telemetry) :
    (countFailure e t).storageRetries = t.storageRetries := by
  unfold countFailure
  split <;> rfl

theorem ledger_giveUp (s : Shared) (r : ChunkRange) :
    (s.giveUp r).ledger = s.ledger ∧
      (s.giveUp r).telemetry.storageRetries = s.telemetry.storageRetries := by
  unfold Shared.giveUp
  split <;> exact ⟨rfl, rfl⟩

/-- A worker leaves the ledger alone, and the count of failed writes. -/
theorem ledger_step (h : Step settings id s phase signal next s') :
    s'.ledger = s.ledger ∧ s'.telemetry.storageRetries = s.telemetry.storageRetries := by
  cases h with
  | paused => exact ⟨rfl, retries_countFailure _ _⟩
  | gaveUp =>
    obtain ⟨hledger, hretries⟩ := ledger_giveUp _ _
    exact ⟨hledger, hretries.trans (retries_countFailure _ _)⟩
  | behind =>
    obtain ⟨hledger, hretries⟩ := ledger_giveUp _ _
    exact ⟨hledger, hretries⟩
  | stopped | claimed | overflowed | rested | rose | received | fetched | completed | misfit
  | retried | abandoned | panicked | listened | admitted | dropped | refused | told | withdrew =>
    exact ⟨rfl, rfl⟩

end Worker

namespace World

variable {w w' : World} {m : Move} {ms ns : List Move}

/-! ### Along moves -/

section Along

variable {α : Type} (g : World → Move → List α)

/-- What is read off moves, one after the other. -/
def along (w : World) : List Move → List α
  | [] => []
  | m :: ms => g w m ++ ((w.move m).map fun w' => w'.along ms).getD []

@[simp] theorem along_nil (w : World) : w.along g [] = [] := rfl

theorem along_cons (hmove : w.move m = some w') :
    w.along g (m :: ms) = g w m ++ w'.along g ms := by
  rw [along, hmove, Option.map_some, Option.getD_some]

theorem after_append (w : World) (ms ns : List Move) :
    w.after (ms ++ ns) = (w.after ms).bind fun w' => w'.after ns := by
  unfold after
  exact List.foldlM_append

variable {g}

/-- **What every move keeps of what was read off so far is kept by all of them.** -/
theorem along_induction {P : List α → World → Prop} (h : w.after ms = some w') (hstart : P [] w)
    (hmove : ∀ t v m v', P t v → v.move m = some v' → P (t ++ g v m) v') :
    P (w.along g ms) w' := by
  have hall : ∀ t, P t w → P (t ++ w.along g ms) w' := by
    clear hstart
    induction ms generalizing w with
    | nil =>
      cases h
      intro t ht
      rwa [along_nil, List.append_nil]
    | cons m ms ih =>
      obtain ⟨v, hv, hlater⟩ := Option.bind_eq_some_iff.mp h
      intro t ht
      rw [along_cons g hv, ← List.append_assoc]
      exact ih hlater _ (hmove t w m v ht hv)
  exact hall [] hstart

end Along

/-! ### The trace of a run -/

/-- What moves do to the world outside. -/
def trace (w : World) (ms : List Move) : List Effect := w.along effects ms

/-- The sequencer moves as it steps, and is supervised. -/
theorem sequencer_of_move {signal : SequencerSignal} (h : w.move (.sequencer signal) = some w') :
    ∃ q s, w.sequencer.step w.shared signal = some (q, s) ∧
      w' = { w with
        shared := (closed w.settings q s).2
        sequencer := (closed w.settings q s).1 } := by
  have hmove : w.stepSequencer signal = some w' := h
  unfold stepSequencer at hmove
  rcases hout : w.sequencer.step w.shared signal with _ | ⟨q, s⟩
  · rw [hout] at hmove
    cases hmove
  · refine ⟨q, s, rfl, ?_⟩
    rw [hout] at hmove
    simp only at hmove
    split at hmove
    · next result hphase =>
      have hclosed : closed w.settings q s
          = (q.goTo (.exited (sequencerEnded w.settings result s).1),
            (sequencerEnded w.settings result s).2) := by
        unfold closed
        rw [hphase]
      rw [hclosed]
      exact (Option.some.inj hmove).symm
    · next hrun =>
      rw [closed_eq fun failure hphase => hrun _ hphase]
      exact (Option.some.inj hmove).symm

/-- Supervision leaves the ledger alone. -/
theorem ledger_attended (settings : RunSettings) (id : ℕ) (next : WorkerPhase) (s : Shared) :
    (attended settings id next s).ledger = s.ledger := by
  unfold attended workerEnded
  split
  · split
    · split <;> rfl
    · rfl
  · rfl

theorem ledger_closed (settings : RunSettings) (q : Sequencer) (s : Shared) :
    (closed settings q s).2.ledger = s.ledger := by
  unfold closed sequencerEnded
  split
  · split
    · rfl
    · split <;> rfl
  · rfl

/-- The effects of a move account for the ledger. -/
theorem ledger_move (h : w.move m = some w') :
    w'.shared.ledger = w.shared.ledger.after (w.effects m) := by
  cases m with
  | sequencer signal =>
    obtain ⟨q, s, hstep, rfl⟩ := sequencer_of_move h
    exact (ledger_closed _ _ _).trans (Sequencer.ledger_step hstep)
  | worker id signal =>
    cases move_cases h with
    | worker hphase hstep => exact (ledger_attended _ _ _ _).trans (Worker.ledger_step hstep).1
  | refresher signal =>
    cases move_cases h with
    | @heard answer => cases answer <;> rfl
    | refreshed => rfl
  | cancelRun | cancelRoot =>
    cases h
    rfl

/-- **The trace of a run accounts for the ledger.** -/
theorem ledger_after (h : w.after ms = some w') :
    w'.shared.ledger = w.shared.ledger.after (w.trace ms) := by
  refine along_induction (P := fun t v => v.shared.ledger = w.shared.ledger.after t) h rfl ?_
  intro t v m v' ht hv
  rw [ledger_move hv, ht, Ledger.after_append]

end World
end BlockIngest
