import BlockIngest.Proofs.Lifetime.FirstReport

/-!
# Reports that overlap

A report is not done at once.  A task that reports looks first whether a fatal failure has
been announced; any reporter then takes the place of the first fatal failure, or finds it
taken; and whoever has taken it cancels the token of the run, then the root token, and
announces the failure last.  Other reporters can come in between, so that one can find the
place taken although nothing has been announced.

It makes no difference.  Only one reporter ever takes the place, and gets back what is kept;
all others get back their own failures, and when the one has got it, both tokens are
cancelled.  A report during which nobody else does anything is a single step of
`Shutdown.report`.

## Main definitions

* `Overlap.Handler` — the tokens, the place of the first failure, and whether it was announced.
* `Overlap.Stage`, `Overlap.Stage.advance` — how far a reporter has got, and its next step.
* `Overlap.Party`, `Overlap.Party.step` — reporters at one handler, and what happens to them.
* `Overlap.Party.Led` — the invariant: at most one reporter has taken the place.

## Main results

* `Overlap.Party.Led.step` — **every step keeps the invariant.**
* `Overlap.Party.one_wins` — **one reporter wins**, however reports overlap.
* `Overlap.Stage.whole_report` — a report on its own is a single step.
* `first_report_wins` — **the first report wins**, in one step or in many.
-/

namespace BlockIngest
namespace Shutdown
namespace Overlap

/-- What reporters share. -/
structure Handler extends Shutdown where
  /-- Whether a fatal failure was announced. -/
  announced : Bool
  deriving DecidableEq, Repr

/-- How far a reporter has got. -/
inductive Stage where
  /-- It has not looked at anything yet. -/
  | called
  /-- It was not turned away, and looks next whether the place is taken. -/
  | admitted
  /-- It has taken the place, and cancels the token of the run next. -/
  | keeping
  /-- It has cancelled the token of the run, and cancels the root token next. -/
  | ending
  /-- It has cancelled both tokens, and announces the failure next. -/
  | announcing
  /-- It has got this back. -/
  | returned (failure : Failure)

/-- The next step of a reporter. -/
def Stage.advance (r : Report) (h : Handler) : Stage → Handler × Stage
  | .called =>
      match r with
      | .storage _ _ => (h, .admitted)
      | .task _ failure => if h.announced then (h, .returned failure) else (h, .admitted)
  | .admitted =>
      match h.fatal with
      | some _ => (h, .returned r.capture.failure)
      | none => ({ h with fatal := some r.capture }, .keeping)
  | .keeping => ({ h with run := true }, .ending)
  | .ending => ({ h with root := true }, .announcing)
  | .announcing => ({ h with announced := true }, .returned r.capture.error)
  | .returned failure => (h, .returned failure)

/-- Reporters at the same handler. -/
structure Party where
  /-- What they share. -/
  handler : Handler
  /-- Their reports, and how far they have got. -/
  calls : List (Report × Stage)

namespace Party

/-- What happens to reporters. -/
inductive Event where
  /-- A reporter comes. -/
  | call (r : Report)
  /-- The reporter with this index takes its next step. -/
  | advance (i : ℕ)
  /-- Somebody else cancels the token of the run. -/
  | cancelRun
  /-- Somebody else cancels the root token. -/
  | cancelRoot

/-- What an event does. -/
def step (p : Party) : Event → Party
  | .call r => { p with calls := p.calls ++ [(r, .called)] }
  | .advance i =>
      match p.calls[i]? with
      | none => p
      | some (r, stage) =>
          { handler := (stage.advance r p.handler).1
            calls := p.calls.set i (r, (stage.advance r p.handler).2) }
  | .cancelRun => { p with handler := { p.handler with toShutdown := p.handler.cancelRun } }
  | .cancelRoot => { p with handler := { p.handler with toShutdown := p.handler.cancelRoot } }

/-- What events do. -/
def after (p : Party) (events : List Event) : Party := events.foldl step p

end Party

/-! ### The invariant -/

namespace Stage

/-- A reporter that has not got to the place yet. -/
inductive Waits : Stage → Prop
  | called : Waits .called
  | admitted : Waits .admitted

/-- A reporter that has not taken the place, or has found it taken. -/
inductive Follows (r : Report) : Stage → Prop
  | waits {stage : Stage} : stage.Waits → Follows r stage
  | returned : Follows r (.returned r.capture.failure)

/-- A reporter that has taken the place, and what it has done since. -/
inductive Leads (r : Report) (h : Handler) : Stage → Prop
  | keeping : ¬ h.announced → Leads r h .keeping
  | ending : ¬ h.announced → h.run → Leads r h .ending
  | announcing : ¬ h.announced → h.run → h.root → Leads r h .announcing
  | returned : h.announced → h.run → h.root → Leads r h (.returned r.capture.error)

variable {r : Report} {h : Handler} {stage : Stage} {c : Capture}

/-- Before the place is taken, a reporter comes nearer to it, or takes it. -/
theorem advance_waits (hstage : stage.Waits) (hnone : h.fatal = none) (hquiet : ¬ h.announced) :
    (stage.advance r h = (h, .admitted)) ∨
      stage.advance r h = ({ h with fatal := some r.capture }, .keeping) := by
  cases hstage with
  | called =>
    left
    cases r with
    | storage => rfl
    | task => simp [advance, hquiet]
  | admitted =>
    right
    simp [advance, hnone]

/-- Once the place is taken, nobody else changes anything or gets back anything new. -/
theorem advance_follows (hstage : stage.Follows r) (hsome : h.fatal = some c) :
    (stage.advance r h).1 = h ∧ (stage.advance r h).2.Follows r := by
  cases hstage with
  | returned => exact ⟨rfl, .returned⟩
  | waits hwaits =>
    cases hwaits with
    | admitted =>
      unfold advance
      rw [hsome]
      exact ⟨rfl, .returned⟩
    | called =>
      cases r with
      | storage => exact ⟨rfl, .waits .admitted⟩
      | task context failure =>
        -- without an announcement it goes on, and finds the place taken in its next step
        simp only [advance]
        split
        · exact ⟨rfl, .returned⟩
        · exact ⟨rfl, .waits .admitted⟩

/-- A place that is taken stays so. -/
theorem fatal_advance (stage : Stage) (r : Report) (hsome : h.fatal = some c) :
    (stage.advance r h).1.fatal = some c := by
  cases stage with
  | called =>
    exact (congrArg (·.fatal) (advance_follows (.waits .called) hsome).1).trans hsome
  | admitted =>
    exact (congrArg (·.fatal) (advance_follows (.waits .admitted) hsome).1).trans hsome
  | keeping | ending | announcing | returned => exact hsome

/-- Who has taken the place cancels both tokens before announcing it, and gets back what is
kept. -/
theorem advance_leads (hstage : stage.Leads r h) :
    (stage.advance r h).1.fatal = h.fatal ∧
      (stage.advance r h).2.Leads r (stage.advance r h).1 := by
  cases hstage with
  | keeping hquiet => exact ⟨rfl, .ending hquiet rfl⟩
  | ending hquiet hrun => exact ⟨rfl, .announcing hquiet hrun rfl⟩
  | announcing hquiet hrun hroot => exact ⟨rfl, .returned rfl hrun hroot⟩
  | returned htold hrun hroot => exact ⟨rfl, .returned htold hrun hroot⟩

/-- It makes no difference to the leader if others cancel tokens. -/
theorem Leads.mono {h' : Handler} (hstage : stage.Leads r h) (htold : h'.announced = h.announced)
    (hrun : h.run → h'.run) (hroot : h.root → h'.root) : stage.Leads r h' := by
  cases hstage with
  | keeping hquiet => exact .keeping (htold ▸ hquiet)
  | ending hquiet hr => exact .ending (htold ▸ hquiet) (hrun hr)
  | announcing hquiet hr hro => exact .announcing (htold ▸ hquiet) (hrun hr) (hroot hro)
  | returned hdone hr hro => exact .returned (htold ▸ hdone) (hrun hr) (hroot hro)

end Stage

namespace Party

/-- All reporters but the one with this index have not taken the place, or have found it
taken. -/
def OthersFollow (calls : List (Report × Stage)) (i : ℕ) : Prop :=
  ∀ j r stage, j ≠ i → calls[j]? = some (r, stage) → stage.Follows r

/-- At most one reporter has taken the place. -/
inductive Led (p : Party) : Prop
  /-- Nobody has: then nobody has got anything back, and nothing was announced. -/
  | vacant : p.handler.fatal = none → ¬ p.handler.announced →
      (∀ call ∈ p.calls, Stage.Waits call.2) → Led p
  /-- One has: then its failure is kept, and the others get back their own. -/
  | taken (i : ℕ) (r : Report) (stage : Stage) : p.calls[i]? = some (r, stage) →
      p.handler.fatal = some r.capture → stage.Leads r p.handler → OthersFollow p.calls i → Led p

namespace OthersFollow

variable {calls : List (Report × Stage)} {i k : ℕ} {r : Report} {stage : Stage}

theorem of_waits (h : ∀ call ∈ calls, Stage.Waits call.2) (i : ℕ) : OthersFollow calls i := by
  intro j r stage _ hcall
  exact .waits (h _ (List.mem_of_getElem? hcall))

/-- It does not matter what becomes of the one that is left out. -/
theorem set_self (h : OthersFollow calls i) (call : Report × Stage) :
    OthersFollow (calls.set i call) i := by
  intro j r stage hj hcall
  rw [List.getElem?_set_ne hj.symm] at hcall
  exact h j r stage hj hcall

/-- The others may go on as long as they do not take the place. -/
theorem set (h : OthersFollow calls i) (hk : k < calls.length) (hstage : stage.Follows r) :
    OthersFollow (calls.set k (r, stage)) i := by
  intro j r' stage' hj hcall
  by_cases hjk : j = k
  · subst hjk
    rw [List.getElem?_set_self hk] at hcall
    cases hcall
    exact hstage
  · rw [List.getElem?_set_ne (Ne.symm hjk)] at hcall
    exact h j r' stage' hj hcall

/-- Further ones may come. -/
theorem concat (h : OthersFollow calls i) (r : Report) :
    OthersFollow (calls ++ [(r, .called)]) i := by
  intro j r' stage' hj hcall
  by_cases hold : j < calls.length
  · rw [List.getElem?_append_left hold] at hcall
    exact h j r' stage' hj hcall
  · rw [List.getElem?_append_right (Nat.le_of_not_lt hold)] at hcall
    obtain ⟨rfl, rfl⟩ := Prod.mk.inj (List.mem_singleton.mp (List.mem_of_getElem? hcall))
    exact .waits .called

end OthersFollow

variable {p : Party} {i : ℕ} {r : Report} {stage : Stage}

theorem step_advance_of_none (h : p.calls[i]? = none) : p.step (.advance i) = p := by
  simp only [step, h]

theorem step_advance_of_some (h : p.calls[i]? = some (r, stage)) :
    p.step (.advance i) =
      { handler := (stage.advance r p.handler).1
        calls := p.calls.set i (r, (stage.advance r p.handler).2) } := by
  simp only [step, h]

namespace Led

/-- Others may cancel tokens. -/
theorem cancel (hled : p.Led) {s : Shutdown} (hfatal : s.fatal = p.handler.fatal)
    (hrun : p.handler.run → s.run) (hroot : p.handler.root → s.root) :
    Led { p with handler := { p.handler with toShutdown := s } } := by
  cases hled with
  | vacant hnone hquiet hwaits => exact .vacant (hfatal.trans hnone) hquiet hwaits
  | taken i r stage hi hsome hleads hothers =>
    exact .taken i r stage hi (hfatal.trans hsome) (hleads.mono rfl hrun hroot) hothers

/-- Reporters may come. -/
theorem call (hled : p.Led) (r : Report) : Led { p with calls := p.calls ++ [(r, .called)] } := by
  cases hled with
  | vacant hnone hquiet hwaits =>
    refine .vacant hnone hquiet ?_
    intro call hcall
    rcases List.mem_append.mp hcall with hold | hnew
    · exact hwaits call hold
    · rw [List.mem_singleton.mp hnew]
      exact .called
  | taken i r₀ stage hi hsome hleads hothers =>
    have hlt : i < p.calls.length := (List.getElem?_eq_some_iff.mp hi).1
    exact .taken i r₀ stage ((List.getElem?_append_left hlt).trans hi) hsome hleads
      (hothers.concat r)

/-- As long as the place is free, a reporter may take its next step, which may be to take
it. -/
theorem advance_vacant (hnone : p.handler.fatal = none) (hquiet : ¬ p.handler.announced)
    (hwaits : ∀ call ∈ p.calls, Stage.Waits call.2) (hcall : p.calls[i]? = some (r, stage)) :
    (p.step (.advance i)).Led := by
  have hlt : i < p.calls.length := (List.getElem?_eq_some_iff.mp hcall).1
  have hstage : stage.Waits := hwaits _ (List.mem_of_getElem? hcall)
  rw [step_advance_of_some hcall]
  rcases Stage.advance_waits (r := r) hstage hnone hquiet with hnext | hnext
  · rw [hnext]
    refine .vacant hnone hquiet ?_
    intro call hmem
    rcases List.mem_or_eq_of_mem_set hmem with hold | rfl
    · exact hwaits call hold
    · exact .admitted
  · rw [hnext]
    exact .taken i r .keeping (List.getElem?_set_self hlt) rfl (.keeping hquiet)
      ((OthersFollow.of_waits hwaits i).set_self _)

/-- A reporter may take its next step. -/
theorem advance (hled : p.Led) (i : ℕ) : (p.step (.advance i)).Led := by
  rcases hcall : p.calls[i]? with _ | ⟨r, stage⟩
  · rw [step_advance_of_none hcall]
    exact hled
  · have hlt : i < p.calls.length := (List.getElem?_eq_some_iff.mp hcall).1
    cases hled with
    | vacant hnone hquiet hwaits => exact advance_vacant hnone hquiet hwaits hcall
    | taken k r₀ stage₀ hk hsome hleads hothers =>
      rw [step_advance_of_some hcall]
      by_cases hik : i = k
      · -- it is the one that has taken the place
        subst hik
        obtain ⟨rfl, rfl⟩ := Prod.mk.inj (Option.some.inj (hk.symm.trans hcall))
        obtain ⟨hfatal, hnext⟩ := Stage.advance_leads hleads
        exact .taken i r₀ _ (List.getElem?_set_self hlt) (hfatal.trans hsome) hnext
          (hothers.set_self _)
      · obtain ⟨hsame, hnext⟩ := Stage.advance_follows (hothers i r stage hik hcall) hsome
        rw [hsame]
        exact .taken k r₀ stage₀ ((List.getElem?_set_ne hik).trans hk) hsome hleads
          (hothers.set hlt hnext)

/-- **Every step keeps the invariant.** -/
theorem step (hled : p.Led) (event : Event) : (p.step event).Led := by
  cases event with
  | call r => exact hled.call r
  | advance i => exact hled.advance i
  | cancelRun => exact hled.cancel rfl (fun _ => rfl) id
  | cancelRoot => exact hled.cancel rfl (fun _ => rfl) fun _ => rfl

theorem after (hled : p.Led) (events : List Event) : (p.after events).Led := by
  induction events generalizing p with
  | nil => exact hled
  | cons event events ih => exact ih (hled.step event)

end Led

/-- The failure that is kept is kept for good. -/
theorem fatal_step {c : Capture} (h : p.handler.fatal = some c) (event : Event) :
    (p.step event).handler.fatal = some c := by
  cases event with
  | call | cancelRun | cancelRoot => exact h
  | advance i =>
    rcases hcall : p.calls[i]? with _ | ⟨r, stage⟩
    · rw [step_advance_of_none hcall]
      exact h
    · rw [step_advance_of_some hcall]
      exact Stage.fatal_advance stage r h

theorem fatal_after {c : Capture} (h : p.handler.fatal = some c) (events : List Event) :
    (p.after events).handler.fatal = some c := by
  induction events generalizing p with
  | nil => exact h
  | cons event events ih => exact ih (fatal_step h event)

/-- **The law of reports that overlap.** -/
structure OneWins (p : Party) : Prop where
  /-- As long as no failure is kept, nobody has got anything back. -/
  vacant : p.handler.fatal = none → ∀ r f, (r, .returned f) ∉ p.calls
  /-- The failure that is kept is that of one reporter, who gets it back with its origin on
  top; all others get back their own. -/
  taken : ∀ c, p.handler.fatal = some c → ∃ (i : ℕ) (r : Report) (stage : Stage),
    p.calls[i]? = some (r, stage) ∧ r.capture = c ∧
    (∀ f, stage = .returned f → f = c.error ∧ p.handler.announced) ∧
    ∀ (j : ℕ) (r' : Report) f, j ≠ i → p.calls[j]? = some (r', .returned f) →
      f = r'.capture.failure
  /-- Once the failure is announced, both tokens are cancelled. -/
  announced : p.handler.announced →
    p.handler.fatal.isSome ∧ p.handler.run ∧ p.handler.root
  /-- The failure is kept for good. -/
  lasting : ∀ c, p.handler.fatal = some c → ∀ events, (p.after events).handler.fatal = some c

theorem Led.oneWins (hled : p.Led) : p.OneWins := by
  constructor
  · intro hnone r f hmem
    cases hled with
    | vacant _ _ hwaits => cases hwaits _ hmem
    | taken i r stage hi hsome => cases hnone.symm.trans hsome
  · intro c hc
    cases hled with
    | vacant hnone => cases hnone.symm.trans hc
    | taken i r stage hi hsome hleads hothers =>
      cases hc.symm.trans hsome
      refine ⟨i, r, stage, hi, rfl, ?_, ?_⟩
      · rintro f rfl
        cases hleads with
        | returned htold => exact ⟨rfl, htold⟩
      · intro j r' f hj hcall
        cases hothers j r' _ hj hcall with
        | returned => rfl
        | waits hwaits => cases hwaits
  · intro htold
    cases hled with
    | vacant _ hquiet => exact absurd htold hquiet
    | taken i r stage hi hsome hleads hothers =>
      cases hleads with
      | keeping hquiet | ending hquiet | announcing hquiet => exact absurd htold hquiet
      | returned _ hrun hroot => exact ⟨Option.isSome_of_eq_some hsome, hrun, hroot⟩
  · intro c hc events
    exact fatal_after hc events

/-- **One reporter wins**, however reports overlap, and whatever tokens others cancel in
between. -/
theorem one_wins (root run : Bool) (events : List Event) :
    (Party.after ⟨⟨⟨root, run, none⟩, false⟩, []⟩ events).OneWins := by
  have hstart : Led ⟨⟨⟨root, run, none⟩, false⟩, []⟩ := by
    apply Led.vacant
    · rfl
    · exact Bool.false_ne_true
    · intro call hcall
      cases hcall
  exact (hstart.after events).oneWins

end Party

/-- **A report on its own is a single step**: of both tokens, of what is kept, and of what the
reporter gets back. -/
theorem Stage.whole_report {h : Handler} (hannounced : h.announced = h.isTriggered) (r : Report) :
    (fun call : Handler × Stage => call.2.advance r call.1)^[5] (h, .called)
      = (⟨(h.report r).2, (h.report r).2.isTriggered⟩, .returned (h.report r).1) := by
  obtain ⟨⟨root, run, fatal⟩, announced⟩ := h
  have htold : announced = fatal.isSome := hannounced
  subst htold
  cases fatal with
  | none =>
    cases r with
    | storage | task => rfl
  | some c =>
    cases r with
    | storage | task => rfl

end Overlap

/-- **The first report wins**, whether reports come one after the other, each in a single step,
or overlap; and whatever tokens others cancel before, in between and later. -/
theorem first_report_wins (root run : Bool) :
    (∀ acts, FirstWins ⟨root, run, none⟩ acts) ∧
      ∀ events, (Overlap.Party.after ⟨⟨⟨root, run, none⟩, false⟩, []⟩ events).OneWins :=
  ⟨firstWins root run, Overlap.Party.one_wins root run⟩

end Shutdown
end BlockIngest
