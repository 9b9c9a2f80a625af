import BlockIngest.Pipeline.Runner
import BlockIngest.Proofs.Lifetime.Fetcher

/-!
# A runner over its lifetime

A runner does to its fetcher what is done to it, and swaps the root token whenever a run was
stopped.  So whatever became of the token, the next run begins under a fresh one: a runner
that was stopped can always be started again, and only who cancels the current token before
the start is over gets a run that is cancelled as it begins.

Running until the token is cancelled is a start, and a stop once that has happened; what goes
on in between is up to the tasks and to others.  So it is among what is done here.

## Main definitions

* `Runner.Session`, `Runner.Session.step` — a runner with what it has come to, and what is done
  with it.
* `Runner.untilCancelled` — running until the token is cancelled.
* `Runner.Session.Kept` — the invariant.
* `Runner.Session.Renews` — the law.

## Main results

* `Runner.Session.Kept.step` — **every deed keeps the invariant.**
* `Runner.renews_after` — **a runner that was stopped has a fresh token, and begins afresh.**
-/

namespace BlockIngest
namespace Runner

open Fetcher (Stage Deed)

/-! ### What is done with a runner -/

/-- A runner with what it has come to. -/
structure Session where
  /-- The runner. -/
  runner : Runner
  /-- How far it has come with what it was asked to do. -/
  stage : Stage
  /-- Whether the current token was cancelled from outside. -/
  disturbed : Bool

/-- Running until the token is cancelled: a start, and a stop once that has happened. -/
def untilCancelled (unread : Option Failure) (head : Except Failure ℕ)
    (meanwhile ending : List Deed) : List Deed :=
  [.start unread, .launch head] ++ meanwhile ++ [.stop] ++ ending ++ [.finish]

namespace Session

/-- A runner that has not been started. -/
def make (config : Config) (store : Store) (publisher : Publisher) : Session :=
  ⟨.make config store publisher, .free, false⟩

/-- What a deed makes of it; nothing if it cannot be done.  A start that cannot read the store
is refused; a start of a runner that was started, and a stop of one that was not, have nothing
to do. -/
def step (s : Session) (d : Deed) : Option Session :=
  match s.stage, d with
  | .free, .start unread =>
      match s.runner.prepare (s.runner.fetcher.reading unread) with
      | .error _ => some s
      | .ok (none, _) => some s
      | .ok (some latest, r) => some { s with runner := r, stage := .starting latest }
  | .starting latest, .launch head =>
      some { s with runner := s.runner.launch latest head, stage := .free }
  | _, .task m =>
      (s.runner.fetcher.afterTask m).map fun f =>
        { s with runner := { s.runner with fetcher := f } }
  | _, .cancel => some { s with runner := s.runner.cancel, disturbed := true }
  | .free, .stop =>
      if s.runner.isStarted then
        some { s with runner := s.runner.requestStop, stage := .stopping }
      else some s
  | .stopping, .finish =>
      match s.runner.fetcher.engine with
      | .running w =>
          if w.isFinished then some ⟨s.runner.finishStop.2, .free, false⟩ else none
      | .idle _ _ => none
  | _, _ => none

/-- What deeds make of it, one after the other. -/
def after (s : Session) (ds : List Deed) : Option Session := ds.foldlM step s

end Session

/-! ### The steps of a runner -/

variable {r r' : Runner} {f : Fetcher} {latest : Option ℕ}

/-- A runner and its fetcher agree on whether there is a run, and under which token. -/
structure Joined (r : Runner) : Prop where
  /-- The runner was started, and not stopped since, if and only if its fetcher is running. -/
  started_eq : r.isStarted = r.fetcher.isRunning
  /-- The token of the runner is the root token of its fetcher. -/
  token_eq : r.fetcher.token.id = r.token
  /-- The tokens that were current before are other ones. -/
  retired_lt : ∀ t ∈ r.retired, t.id < r.token

namespace Joined

variable (h : r.Joined)
include h

theorem withFetcher (hrunning : f.isRunning = r.fetcher.isRunning)
    (hid : f.token.id = r.fetcher.token.id) : Joined { r with fetcher := f } :=
  ⟨h.started_eq.trans hrunning.symm, hid.trans h.token_eq, h.retired_lt⟩

theorem withRun (hrunning : r.fetcher.isRunning) (w : World) :
    Joined { r with fetcher := { r.fetcher with engine := .running w } } := by
  refine h.withFetcher hrunning.symm ?_
  exact (Fetcher.id_token _).trans (Fetcher.id_token r.fetcher).symm

theorem cancel_eq : r.cancel = { r with fetcher := r.fetcher.cancelRoot } := by
  unfold cancel
  rw [if_pos h.token_eq]

theorem launch (latest : Option ℕ) (head : Except Failure ℕ) :
    (r.launch latest head).Joined := by
  refine ⟨rfl, ?_, h.retired_lt⟩
  exact (Fetcher.id_token _).trans ((Fetcher.id_token r.fetcher).symm.trans h.token_eq)

theorem cancel : r.cancel.Joined := by
  have hid : r.fetcher.cancelRoot.token.id = r.fetcher.token.id := by
    rw [Fetcher.token_cancelRoot]
    rfl
  rw [h.cancel_eq]
  exact h.withFetcher (Fetcher.isRunning_cancelRoot _) hid

/-- A stop cancels the token, and the run with it. -/
theorem requestStop_eq {w : World} (hengine : r.fetcher.engine = .running w) :
    r.requestStop = { r with
      fetcher := { r.fetcher with engine := .running w.cancelRoot.cancelRun } } := by
  have hstarted : r.isStarted := h.started_eq.trans (Fetcher.isRunning_iff.mpr ⟨w, hengine⟩)
  unfold requestStop
  rw [if_pos hstarted, h.cancel_eq]
  unfold Fetcher.cancelRoot
  rw [hengine]
  rfl

/-- A stop ends with a fresh token, whatever became of the old one. -/
theorem finishStop_eq {w : World} (hengine : r.fetcher.engine = .running w) :
    r.finishStop.2 =
      { fetcher :=
          { config := r.fetcher.config
            baseToken := .fresh (r.token + 1)
            engine := .idle w.shared.toStanding (some w.shared.planner) }
        token := r.token + 1
        isStarted := false
        retired := r.fetcher.token :: r.retired } := by
  have hstarted : r.isStarted := h.started_eq.trans (Fetcher.isRunning_iff.mpr ⟨w, hengine⟩)
  unfold finishStop Fetcher.finishStop
  rw [if_pos hstarted, hengine]
  rfl

theorem finishStop {w : World} (hengine : r.fetcher.engine = .running w) :
    r.finishStop.2.Joined := by
  rw [h.finishStop_eq hengine]
  refine ⟨rfl, rfl, fun t ht => ?_⟩
  rcases List.mem_cons.mp ht with rfl | ht
  · rw [h.token_eq]
    exact Nat.lt_succ_self _
  · exact Nat.lt_succ_of_lt (h.retired_lt t ht)

end Joined

/-- A start that is not refused is a start of the fetcher, unless the runner was started. -/
theorem prepare_eq_ok {answer : Except Failure (Option ℕ)}
    (h : r.prepare answer = .ok (some latest, r')) :
    ∃ f, r.fetcher.prepare answer = .ok (latest, f) ∧ r' = { r with fetcher := f } := by
  unfold prepare at h
  split_ifs at h
  · cases h
  · split at h
    · cases h
    · next latest f hprepare =>
      cases h
      exact ⟨f, hprepare, rfl⟩

theorem prepare_of_not_isStarted {answer : Except Failure (Option ℕ)} (h : ¬ r.isStarted)
    (hprepare : r.fetcher.prepare answer = .ok (latest, f)) :
    r.prepare answer = .ok (some latest, { r with fetcher := f }) := by
  unfold prepare
  rw [if_neg h, hprepare]

/-- A start that cannot read the store is refused. -/
theorem prepare_refused (h : ¬ r.isStarted) (hidle : ¬ r.fetcher.isRunning) (failure : Failure) :
    r.prepare (.error failure)
      = .error (failure.context "failed to read latest committed height") := by
  unfold prepare Fetcher.prepare
  rw [if_neg h, if_neg hidle]

/-! ### The invariant -/

namespace Session

variable {s s' : Session} {d : Deed}

/-- Between runs the token is cancelled only if it was cancelled from outside. -/
structure Kept (s : Session) : Prop where
  /-- The runner and its fetcher agree. -/
  joined : s.runner.Joined
  /-- The fetcher is where the runner was asked to go. -/
  suits : s.stage.Suits s.runner.fetcher
  /-- The token before a run. -/
  idle : ¬ s.runner.fetcher.isRunning → s.runner.fetcher.token.cancelled = s.disturbed

theorem kept_make (config : Config) (store : Store) (publisher : Publisher) :
    (make config store publisher).Kept :=
  ⟨⟨rfl, rfl, fun _ ht => absurd ht List.not_mem_nil⟩, trivial, fun _ => rfl⟩

namespace Kept

variable (h : s.Kept)
include h

theorem start {unread : Option Failure} {latest : Option ℕ} {r : Runner}
    (hprepare : s.runner.prepare (s.runner.fetcher.reading unread) = .ok (some latest, r)) :
    Kept { s with runner := r, stage := .starting latest } := by
  obtain ⟨f, hfetcher, rfl⟩ := prepare_eq_ok hprepare
  obtain ⟨hidle, hidle', hlatest, htoken⟩ := Fetcher.prepare_reading hfetcher
  have hrunning : f.isRunning = s.runner.fetcher.isRunning := by
    rw [Bool.eq_false_iff.mpr hidle, Bool.eq_false_iff.mpr hidle']
  refine ⟨h.joined.withFetcher hrunning (congrArg Token.id htoken), ⟨hidle', hlatest⟩, fun _ => ?_⟩
  exact (congrArg Token.cancelled htoken).trans (h.idle hidle)

theorem launch (latest : Option ℕ) (head : Except Failure ℕ) :
    Kept { s with runner := s.runner.launch latest head, stage := .free } :=
  ⟨h.joined.launch latest head, trivial, fun hidle => absurd rfl hidle⟩

theorem task {m : Move} {f : Fetcher} (hafter : s.runner.fetcher.afterTask m = some f) :
    Kept { s with runner := { s.runner with fetcher := f } } := by
  obtain ⟨w, w', hengine, -, -, rfl⟩ := Fetcher.afterTask_eq_some hafter
  have hrunning : s.runner.fetcher.isRunning := Fetcher.isRunning_iff.mpr ⟨w, hengine⟩
  exact ⟨h.joined.withRun hrunning w', h.suits.of_running hrunning rfl,
    fun hidle => absurd rfl hidle⟩

theorem cancel : Kept { s with runner := s.runner.cancel, disturbed := true } := by
  refine ⟨h.joined.cancel, ?_, fun _ => ?_⟩
  · rw [h.joined.cancel_eq]
    exact h.suits.congr (Fetcher.isRunning_cancelRoot _) (Fetcher.store_cancelRoot _)
  · rw [h.joined.cancel_eq]
    exact congrArg Token.cancelled (Fetcher.token_cancelRoot _)

theorem stop (hstarted : s.runner.isStarted) :
    Kept { s with runner := s.runner.requestStop, stage := .stopping } := by
  obtain ⟨w, hengine⟩ := Fetcher.isRunning_iff.mp (h.joined.started_eq ▸ hstarted)
  have hrunning := Fetcher.isRunning_iff.mpr ⟨w, hengine⟩
  rw [h.joined.requestStop_eq hengine]
  exact ⟨h.joined.withRun hrunning _, rfl, fun hidle => absurd rfl hidle⟩

theorem finish {w : World} (hengine : s.runner.fetcher.engine = .running w) :
    Kept ⟨s.runner.finishStop.2, .free, false⟩ := by
  refine ⟨h.joined.finishStop hengine, trivial, fun _ => ?_⟩
  rw [h.joined.finishStop_eq hengine]
  rfl

/-- **Every deed keeps the invariant.** -/
theorem step (hstep : s.step d = some s') : s'.Kept := by
  unfold Session.step at hstep
  split at hstep
  case h_1 unread hstage =>
    split at hstep
    · cases hstep
      exact h
    · cases hstep
      exact h
    · next latest r hprepare =>
      cases hstep
      exact h.start hprepare
  case h_2 latest head hstage =>
    cases hstep
    exact h.launch latest head
  case h_3 m =>
    obtain ⟨f, hafter, rfl⟩ := Option.map_eq_some_iff.mp hstep
    exact h.task hafter
  case h_4 =>
    cases hstep
    exact h.cancel
  case h_5 hstage =>
    split_ifs at hstep with hstarted
    · cases hstep
      exact h.stop hstarted
    · cases hstep
      exact h
  case h_6 hstage =>
    split at hstep
    · next w hengine =>
      split_ifs at hstep
      cases hstep
      exact h.finish hengine
    · cases hstep
  case h_7 => cases hstep

end Kept

/-! ### What comes from outside -/

/-- A token that was cancelled from outside was so before, or is so by this deed; and it is the
same one only if the deed is not the end of a stop. -/
theorem disturbed_step (hstep : s.step d = some s') (hdisturbed : s'.disturbed) :
    d = .cancel ∨ d ≠ .finish ∧ s.disturbed := by
  unfold step at hstep
  split at hstep
  case h_1 =>
    split at hstep <;> cases hstep <;> exact Or.inr ⟨nofun, hdisturbed⟩
  case h_2 =>
    cases hstep
    exact Or.inr ⟨nofun, hdisturbed⟩
  case h_3 =>
    obtain ⟨f, -, rfl⟩ := Option.map_eq_some_iff.mp hstep
    exact Or.inr ⟨nofun, hdisturbed⟩
  case h_4 => exact Or.inl rfl
  case h_5 =>
    split_ifs at hstep <;> cases hstep <;> exact Or.inr ⟨nofun, hdisturbed⟩
  case h_6 =>
    split at hstep
    · split_ifs at hstep
      cases hstep
      cases hdisturbed
    · cases hstep
  case h_7 => cases hstep

theorem undisturbed_finish (hstep : s.step .finish = some s') : s'.disturbed = false := by
  by_contra hdisturbed
  rcases disturbed_step hstep (Bool.eq_true_of_not_eq_false hdisturbed) with hd | ⟨hd, -⟩
  · cases hd
  · exact hd rfl

theorem undisturbed_after {ds : List Deed} (h : s.after ds = some s') (hs : s.disturbed = false)
    (hcancel : .cancel ∉ ds) : s'.disturbed = false := by
  refine foldlM_induction h (P := fun x => x.disturbed = false) hs ?_
  intro d hd x x' hx hstep
  by_contra hdisturbed
  rcases disturbed_step hstep (Bool.eq_true_of_not_eq_false hdisturbed) with rfl | ⟨-, hbefore⟩
  · exact hcancel hd
  · rw [hx] at hbefore
    cases hbefore

/-! ### The law -/

/-- **How a runner is started and stopped.** -/
structure Renews (s : Session) : Prop where
  /-- The runner and its fetcher agree. -/
  joined : s.runner.Joined
  /-- A runner that was started can be stopped, whatever became of its run: the run is told to
  end, -/
  stopped : s.stage = .free → s.runner.isStarted → ∃ s' w, s.step .stop = some s' ∧
    s'.stage = .stopping ∧ s'.runner.fetcher.engine = .running w ∧ w.shared.isCancelled
  /-- and once all tasks have ended, so has the stop, and the token is a fresh one. -/
  renewed : ∀ w, s.stage = .stopping → s.runner.fetcher.engine = .running w → w.isFinished →
    ∃ s', s.step .finish = some s' ∧ s'.stage = .free ∧ s'.runner.isStarted = false ∧
      s'.runner.fetcher.token = .fresh s'.runner.token ∧
      s'.runner.retired = s.runner.fetcher.token :: s.runner.retired ∧
      (∀ t ∈ s'.runner.retired, t.id < s'.runner.token) ∧ s'.disturbed = false
  /-- A runner that was not started is started if the store says what is stored, -/
  accepted : s.stage = .free → ¬ s.runner.isStarted → ∃ s', s.step (.start none) = some s' ∧
    s'.stage = .starting s.runner.fetcher.store.latestHeight
  /-- and this ends in a run that begins afresh above what is stored.  It is cancelled if and only
  if the token was cancelled from outside. -/
  begins : ∀ latest head, s.stage = .starting latest → ∃ s' w, s.step (.launch head) = some s' ∧
    s'.stage = .free ∧ s'.runner.fetcher.engine = .running w ∧
    Fetcher.Begins (Height.resume s.runner.fetcher.store.latestHeight) w ∧
    Fetcher.Fresh s.disturbed w
  /-- A start that cannot read the store changes nothing. -/
  refused : ∀ failure, s.stage = .free → ¬ s.runner.isStarted →
    s.runner.prepare (s.runner.fetcher.reading (some failure))
      = .error (failure.context "failed to read latest committed height") ∧
    s.step (.start (some failure)) = some s

/-- **The invariant gives the law.** -/
theorem Kept.renews (h : s.Kept) : s.Renews where
  joined := h.joined
  stopped := by
    intro hstage hstarted
    obtain ⟨w, hengine⟩ := Fetcher.isRunning_iff.mp (h.joined.started_eq ▸ hstarted)
    refine ⟨{ s with runner := s.runner.requestStop, stage := .stopping }, w.cancelRoot.cancelRun,
      ?_, rfl, ?_, rfl⟩
    · unfold Session.step
      rw [hstage]
      exact if_pos hstarted
    · rw [h.joined.requestStop_eq hengine]
  renewed := by
    intro w hstage hengine hfinished
    refine ⟨⟨s.runner.finishStop.2, .free, false⟩, ?_, rfl, ?_, ?_, ?_, ?_, rfl⟩
    · unfold Session.step
      rw [hstage]
      simp only [hengine, hfinished, if_true]
    · rw [h.joined.finishStop_eq hengine]
    · rw [h.joined.finishStop_eq hengine]
      rfl
    · rw [h.joined.finishStop_eq hengine]
    · exact (h.joined.finishStop hengine).retired_lt
  accepted := by
    intro hstage hidle
    have hidle' : ¬ s.runner.fetcher.isRunning := h.joined.started_eq ▸ hidle
    obtain ⟨f, hprepare⟩ := Fetcher.prepare_of_not_isRunning hidle'
    refine ⟨{ s with
      runner := { s.runner with fetcher := f }
      stage := .starting s.runner.fetcher.store.latestHeight }, ?_, rfl⟩
    unfold Session.step
    rw [hstage]
    simp only [prepare_of_not_isStarted hidle hprepare]
  begins := by
    intro latest head hstage
    have hsuits := h.suits
    rw [hstage] at hsuits
    obtain ⟨w, hw⟩ : ∃ w, (s.runner.fetcher.launch latest head).engine = .running w := ⟨_, rfl⟩
    refine ⟨{ s with runner := s.runner.launch latest head, stage := .free }, w, ?_, rfl, hw,
      ?_, ?_⟩
    · unfold Session.step
      rw [hstage]
    · exact hsuits.2 ▸ Fetcher.begins_resume hw
    · exact h.idle hsuits.1 ▸ Fetcher.fresh_launch hsuits.1 hw
  refused := by
    intro failure hstage hidle
    have hidle' : ¬ s.runner.fetcher.isRunning := h.joined.started_eq ▸ hidle
    have hprepare := prepare_refused hidle hidle' failure
    refine ⟨hprepare, ?_⟩
    unfold Session.step Fetcher.reading
    rw [hstage]
    simp only [hprepare]

end Session

/-- **A runner that was stopped has a fresh token, and begins afresh.**  However it has come to
where it is; and its token counts as cancelled from outside only if that was done since it was
last stopped. -/
theorem renews_after {config : Config} {store : Store} {publisher : Publisher} {ds : List Deed}
    {s : Session} (h : (Session.make config store publisher).after ds = some s) :
    s.Renews ∧ (.cancel ∉ ds → s.disturbed = false) ∧
      ∀ before later, ds = before ++ .finish :: later → .cancel ∉ later → s.disturbed = false := by
  have hkept : s.Kept := foldlM_induction h (Session.kept_make config store publisher)
    fun _ _ _ _ hx hstep => hx.step hstep
  refine ⟨hkept.renews, Session.undisturbed_after h rfl, ?_⟩
  rintro before later rfl hcancel
  obtain ⟨v, -, hlater⟩ := Option.bind_eq_some_iff.mp (List.foldlM_append.symm.trans h)
  rw [List.foldlM_cons] at hlater
  obtain ⟨v', hfinish, hlater⟩ := Option.bind_eq_some_iff.mp hlater
  exact Session.undisturbed_after hlater (Session.undisturbed_finish hfinish) hcancel

/-- The runner runs until its token is cancelled: the write of the first block fails, and the
token is cancelled from outside as well.  Then it is started again. -/
theorem renews_after_abort :
    let meanwhile := Fetcher.firstBlock (.error (.ofText "disk full")) ++ [.cancel]
    let ending : List Deed := [.task (.worker 0 .turn), .task (.refresher .cancel)]
    let ds := untilCancelled none (.ok 2) meanwhile ending ++ [.start none]
    ∃ s s' w, (Session.make Fetcher.frugal .empty (.start 1 Nat.one_pos)).after ds = some s ∧
      s.Renews ∧ s.runner.token = 1 ∧ s.runner.retired = [⟨0, true⟩] ∧
      s.step (.launch (.ok 2)) = some s' ∧ s'.runner.fetcher.engine = .running w ∧
      Fetcher.Begins 1 w ∧ Fetcher.Fresh false w := by
  intro meanwhile ending ds
  have hstopped : ((Session.make Fetcher.frugal .empty (.start 1 Nat.one_pos)).after ds).map
      (fun s => (s.stage, s.runner.fetcher.store.latestHeight, s.runner.token, s.runner.retired))
        = some (.starting none, none, 1, [⟨0, true⟩]) := by
    decide +kernel
  obtain ⟨s, hs, hview⟩ := Option.map_eq_some_iff.mp hstopped
  obtain ⟨hstage, hview⟩ := Prod.mk.inj hview
  obtain ⟨hlatest, hview⟩ := Prod.mk.inj hview
  obtain ⟨htoken, hretired⟩ := Prod.mk.inj hview
  obtain ⟨hrenews, -, hundisturbed⟩ := renews_after hs
  have hquiet := hundisturbed ([.start none, .launch (.ok 2)] ++ meanwhile ++ [.stop] ++ ending)
    [.start none] rfl (by simp)
  obtain ⟨s', w, hlaunch, -, hengine, hbegins, hfresh⟩ := hrenews.begins _ (.ok 2) hstage
  rw [hlatest] at hbegins
  rw [hquiet] at hfresh
  exact ⟨s, s', w, hs, hrenews, htoken, hretired, hlaunch, hengine, hbegins, hfresh⟩

end Runner
end BlockIngest
