import BlockIngest.Proofs.Pipeline.Outward

/-!
# What a stop reports

The first fatal failure of a run is kept, and none that comes later replaces it.  A stop
looks at what the sequencer has returned before it looks at the failure that is kept.
For the most part these are the same: a sequencer that gives a height up returns what was
kept.  But if another task has failed while a write was under way, and this write fails
in its turn, then the sequencer returns a failure of its own, and the stop reports that
one and not the first.

## Main definitions

* `World.late` — the failure with which the sequencer ends after another was kept.
* `World.Blames` — the invariant.
* `World.Reports` — the law.

## Main results

* `World.Blames.move` — **every move keeps the invariant.**
* `World.reports_of_launch` — **what a stop reports, of any run.**
-/

namespace BlockIngest

theorem Shutdown.fatal_capture {s : Shutdown} {c : Capture} (h : s.fatal = some c)
    (origin : FatalOrigin) (failure : Failure) : (s.capture origin failure).2.fatal = some c := by
  rw [capture_of_some h]
  exact h

namespace World

variable {w w' : World} {m : Move} {c : Capture}

/-! ### The failure that is kept -/

/-- A failure that is kept is never replaced. -/
theorem fatal_move (hmove : w.Moved m w') (h : w.shared.shutdown.fatal = some c) :
    w'.shared.shutdown.fatal = some c :=
  shutdown_induction (P := fun d => d.fatal = some c)
    (fun _ origin failure hd => Shutdown.fatal_capture hd origin failure) hmove h
    (fun _ _ hd => hd) fun _ _ hd => hd

theorem fatal_after {ms : List Move} (hrun : w.after ms = some w')
    (h : w.shared.shutdown.fatal = some c) : w'.shared.shutdown.fatal = some c :=
  after_induction hrun h fun _ _ _ _ hv hmove => fatal_move hmove hv

/-! ### The failure that the sequencer returns -/

/-- The failure with which the sequencer ends in a move, if another one was kept before. -/
def late (w : World) (m : Move) : List Failure :=
  match w.shared.shutdown.fatal, w.sequencerResult?, (w.move m).bind sequencerResult? with
  | some _, none, some (.error e) => [e]
  | _, _, _ => []

/-- What the sequencer returns is kept, or comes late. -/
def Blames (es : List Failure) (w : World) : Prop :=
  match w.sequencerResult? with
  | some (.error e) => es = [e] ∧ w.shared.shutdown.fatal.isSome ∨
      es = [] ∧ w.shared.shutdown.fatal.map Capture.error = some e
  | _ => es = []

theorem phase_of_result {result : Except Failure Unit} (h : w.sequencerResult? = some result) :
    w.sequencer.phase = .exited result := by
  unfold sequencerResult? at h
  split at h
  · next other hphase =>
    cases h
    exact hphase
  · cases h

theorem late_of_error {e : Failure} (hmove : w.move m = some w')
    (hnone : w.sequencerResult? = none) (hfatal : w.shared.shutdown.fatal = some c)
    (hresult : w'.sequencerResult? = some (.error e)) : w.late m = [e] := by
  unfold late
  rw [hmove, Option.bind_some, hnone, hfatal, hresult]

theorem late_of_first (hfatal : w.shared.shutdown.fatal = none) : w.late m = [] := by
  unfold late
  rw [hfatal]

theorem late_of_success (hmove : w.move m = some w')
    (hresult : ∀ e, w'.sequencerResult? ≠ some (.error e)) : w.late m = [] := by
  unfold late
  rw [hmove, Option.bind_some]
  split
  · next herror => exact absurd herror (hresult _)
  · rfl

theorem late_eq_nil (hmove : w.move m = some w')
    (hsame : w'.sequencerResult? = w.sequencerResult?) : w.late m = [] := by
  unfold late
  rw [hmove, Option.bind_some, hsame]
  split
  · next hnone herror =>
    rw [hnone] at herror
    cases herror
  · rfl

theorem sequencerResult?_of_step {signal : SequencerSignal} {q : Sequencer} {s : Shared}
    (h : w.sequencer.step w.shared signal = some (q, s)) : w.sequencerResult? = none := by
  unfold sequencerResult?
  split
  · next result hphase =>
    unfold Sequencer.step at h
    rw [hphase] at h
    cases h
  · rfl

/-- The first failure of a run is returned as it is kept. -/
theorem kept_of_closed {signal : SequencerSignal} {q : Sequencer} {s : Shared} {e : Failure}
    (hsupervised : w.settings.supervised) (hstep : Sequencer.Step w.sequencer w.shared signal q s)
    (hnone : w.shared.shutdown.fatal = none)
    (hphase : (closed w.settings q s).1.phase = .exited (.error e)) :
    (closed w.settings q s).2.shutdown.fatal.map Capture.error = some e := by
  by_cases hfail : ∃ failure, q.phase = .exited (.error failure)
  · obtain ⟨failure, hq⟩ := hfail
    rw [closed_of_error hsupervised hq] at hphase ⊢
    cases hphase
    rcases Sequencer.shutdown_step hstep with hsame | ⟨origin, source, hreturned, hcapture⟩
    · rw [hsame, Shutdown.capture_of_none hnone]
      rfl
    · -- a height that was given up is kept first, and supervision finds it there
      rw [hq, Shutdown.capture_of_none hnone] at hreturned
      cases hreturned
      rw [hcapture, Shutdown.capture_of_none hnone, Shutdown.capture_of_some rfl]
      rfl
  · rw [closed_eq (not_exists.mp hfail)] at hphase
    exact absurd ⟨e, hphase⟩ hfail

namespace Blames

variable {es : List Failure}

/-- The moves of other tasks change nothing about it, whether these fail or not. -/
theorem other (h : w.Blames es) (hmove : w.move m = some w')
    (hsame : w'.sequencer = w.sequencer) : w'.Blames (es ++ w.late m) := by
  have hresult : w'.sequencerResult? = w.sequencerResult? := by
    unfold sequencerResult?
    rw [hsame]
  rw [late_eq_nil hmove hresult, List.append_nil]
  unfold Blames at h ⊢
  rw [hresult]
  split
  · next e herror =>
    rw [herror] at h
    rcases h with ⟨hes, hfatal⟩ | ⟨hes, hfatal⟩
    · obtain ⟨c, hc⟩ := Option.isSome_iff_exists.mp hfatal
      exact Or.inl ⟨hes, by rw [fatal_move (move_cases hmove) hc]; rfl⟩
    · obtain ⟨c, hc, hce⟩ := Option.map_eq_some_iff.mp hfatal
      exact Or.inr ⟨hes, by rw [fatal_move (move_cases hmove) hc, Option.map_some, hce]⟩
  · next hother =>
    split at h
    · next e herror => exact absurd herror (hother e)
    · exact h

/-- The sequencer returns what it keeps, unless it comes late. -/
theorem sequencer (h : w.Blames es) (hsupervised : w.settings.supervised)
    {signal : SequencerSignal} (hmove : w.move (.sequencer signal) = some w') :
    w'.Blames (es ++ w.late (.sequencer signal)) := by
  obtain ⟨q, s, hstep, hw'⟩ := sequencer_of_move hmove
  have hnone := sequencerResult?_of_step hstep
  have hes : es = [] := by
    unfold Blames at h
    rwa [hnone] at h
  rw [hes, List.nil_append]
  unfold Blames
  split
  · next e hresult =>
    rcases hfatal : w.shared.shutdown.fatal with _ | c
    · have hphase := phase_of_result hresult
      subst hw'
      exact Or.inr ⟨late_of_first hfatal,
        kept_of_closed hsupervised (Sequencer.step_cases hstep) hfatal hphase⟩
    · exact Or.inl ⟨late_of_error hmove hnone hfatal hresult,
        by rw [fatal_move (move_cases hmove) hfatal]; rfl⟩
  · next hresult => exact late_of_success hmove hresult

/-- **Every move keeps the invariant.** -/
theorem move (h : w.Blames es) (hsupervised : w.settings.supervised)
    (hmove : w.move m = some w') : w'.Blames (es ++ w.late m) := by
  cases m with
  | sequencer signal => exact h.sequencer hsupervised hmove
  | worker id signal => cases move_cases hmove with | worker => exact h.other hmove rfl
  | refresher signal => cases move_cases hmove with | heard | refreshed => exact h.other hmove rfl
  | cancelRun | cancelRoot =>
    cases move_cases hmove
    exact h.other hmove rfl

/-- What a stop reports is what has come late, or else what is kept. -/
theorem stopFailure?_eq (h : w.Blames es) :
    Fetcher.stopFailure? w
      = (es ++ (w.shared.shutdown.fatal.map Capture.error).toList).head? := by
  have hkept : (w.shared.shutdown.fatal.map Capture.error).toList.head?
      = w.shared.shutdown.fatal.map Capture.error := by
    cases w.shared.shutdown.fatal <;> rfl
  unfold Blames at h
  unfold Fetcher.stopFailure? Shutdown.error?
  rcases hresult : w.sequencerResult? with _ | e | _
  · simp only [hresult] at h ⊢
    rw [h, List.nil_append, hkept]
  · simp only [hresult] at h ⊢
    rcases h with ⟨rfl, -⟩ | ⟨rfl, herror⟩
    · rfl
    · rw [List.nil_append, hkept, herror]
  · simp only [hresult] at h ⊢
    rw [h, List.nil_append, hkept]

/-- The sequencer ends but once. -/
theorem eq_singleton (h : w.Blames es) {e : Failure} (he : e ∈ es) : es = [e] := by
  unfold Blames at h
  split at h
  · rcases h with ⟨rfl, -⟩ | ⟨rfl, -⟩
    · rw [List.mem_singleton.mp he]
    · cases he
  · rw [h] at he
    cases he

end Blames

/-! ### The law -/

/-- **What a stop reports** of a run that has been moved since it was launched. -/
structure Reports (w₀ : World) (ms : List Move) (w : World) (outcome : Except Failure Unit) :
    Prop where
  /-- It reports a failure if and only if one is kept. -/
  ok_iff : outcome = .ok () ↔ w.shared.shutdown.fatal = none
  /-- The one that is kept is the first. -/
  first : ∀ ns v c, ns <+: ms → w₀.after ns = some v → v.shared.shutdown.fatal = some c →
    w.shared.shutdown.fatal = some c
  /-- It reports the one that is kept, if the sequencer has not ended late. -/
  kept : ∀ c, w₀.along late ms = [] → w.shared.shutdown.fatal = some c →
    outcome = .error (c.error.context "ingestion pipeline aborted")
  /-- It reports the one that the sequencer has ended with, if that came late. -/
  overtaken : ∀ e, e ∈ w₀.along late ms → outcome = .error (e.context "ingestion pipeline aborted")

/-- A run that is launched blames what it keeps. -/
theorem blames_of_launch {f : Fetcher} {latest : Option ℕ} {head : Except Failure ℕ}
    {ms : List Move} {w₀ : World} (hlaunch : (f.launch latest head).engine = .running w₀)
    (hrun : w₀.after ms = some w) :
    w.Blames (w₀.along late ms) ∧ (w.shared.shutdown.fatal = none → w₀.along late ms = []) := by
  have hkept := along_induction (g := late) (P := fun es v =>
    v.Manned f.config.params.maxSlots ∧ v.Blames es ∧
      (v.shared.shutdown.fatal = none → es = [])) hrun ⟨manned_launch hlaunch, ?_, fun _ => rfl⟩ ?_
  · exact hkept.2
  · cases hlaunch
    rfl
  · intro es v m v' ⟨hmanned, hblames, hnone⟩ hmove
    have hmoved := move_cases hmove
    refine ⟨hmanned.move hmoved, hblames.move hmanned.supervised hmove, fun hfatal => ?_⟩
    -- a failure that is kept would not have gone away
    have hbefore : v.shared.shutdown.fatal = none := by
      rcases hkept : v.shared.shutdown.fatal with _ | c
      · rfl
      · rw [fatal_move hmoved hkept] at hfatal
        cases hfatal
    rw [hnone hbefore, late_of_first hbefore]
    rfl

theorem outcome_of_some {f : Fetcher} {e : Failure} (hengine : f.engine = .running w)
    (he : Fetcher.stopFailure? w = some e) :
    f.finishStop.1 = .error (e.context "ingestion pipeline aborted") := by
  unfold Fetcher.finishStop
  simp only [hengine, he]

theorem outcome_of_none {f : Fetcher} (hengine : f.engine = .running w)
    (hnone : Fetcher.stopFailure? w = none) : f.finishStop.1 = .ok () := by
  unfold Fetcher.finishStop
  simp only [hengine, hnone]

/-- **What a stop reports, of any run.**  However a run came to be as it is since it was
launched: it reports the first failure, unless the sequencer has ended with another one
after that. -/
theorem reports_of_launch {f f' : Fetcher} {latest : Option ℕ} {head : Except Failure ℕ}
    {ms : List Move} {w₀ : World} (hlaunch : (f.launch latest head).engine = .running w₀)
    (hrun : w₀.after ms = some w) (hf' : f'.engine = .running w) :
    Reports w₀ ms w f'.finishStop.1 := by
  obtain ⟨hblames, hnone⟩ := blames_of_launch hlaunch hrun
  have hreport := hblames.stopFailure?_eq
  refine ⟨⟨fun hok => ?_, fun hfatal => ?_⟩, ?_, fun c hlate hfatal => ?_, fun e he => ?_⟩
  · -- where a failure is kept, there is one to report
    by_contra hfatal
    obtain ⟨c, hc⟩ := Option.ne_none_iff_exists'.mp hfatal
    have hsome : ∃ e, Fetcher.stopFailure? w = some e := by
      rw [hreport, hc]
      cases w₀.along late ms <;> exact ⟨_, rfl⟩
    obtain ⟨e, he⟩ := hsome
    rw [outcome_of_some hf' he] at hok
    cases hok
  · rw [hnone hfatal, hfatal] at hreport
    exact outcome_of_none hf' hreport
  · rintro ns v c ⟨ns', rfl⟩ hv hfatal
    rw [after_append, hv] at hrun
    exact fatal_after hrun hfatal
  · rw [hlate, hfatal] at hreport
    exact outcome_of_some hf' hreport
  · rw [hblames.eq_singleton he] at hreport
    exact outcome_of_some hf' hreport

/-- A call of a worker breaks off while a write of the sequencer is under way, which then
succeeds.  The run ends, and the stop reports the worker. -/
theorem reports_of_launch_panicked :
    let params : Config.Params :=
      ⟨"http://node", "db", 2, 1, 1, 1, 1, 1, 1, ⟨1, 1, 1⟩, ⟨1, 1, 1⟩⟩
    let f : Fetcher := .make ⟨params, by decide +kernel⟩ (.fresh 0) .empty (.start 1 Nat.one_pos)
    let moves : List Move := [.worker 0 .turn, .worker 1 .turn,
      .worker 0 (.block (.ok ⟨1, "", "", "", [], .null⟩)), .worker 0 (.results (.ok ⟨1, []⟩)),
      .worker 0 .turn, .worker 0 .turn, .sequencer .turn, .sequencer .turn,
      .worker 1 (.panic "lost"), .sequencer (.written (.ok ())), .worker 0 .turn,
      .sequencer .cancel, .sequencer .turn, .refresher .cancel]
    ∃ w₀ w c, (f.launch none (.ok 2)).engine = .running w₀ ∧ w₀.after moves = some w ∧
      w.isFinished ∧ Reports w₀ moves w { f with engine := .running w }.finishStop.1 ∧
      w.shared.shutdown.fatal = some c ∧ c.error.message = "worker 1 panicked: lost" ∧
      { f with engine := .running w }.finishStop.1
        = .error (c.error.context "ingestion pipeline aborted") := by
  intro params f moves
  let w₀ : World := .launch (Fetcher.runSettings f.config)
    (Refresher.heard (f.sharedAtStart none) (.ok 2)) (Height.resume none) 2
  have hlaunch : (f.launch none (.ok 2)).engine = .running w₀ := rfl
  have hended : (w₀.after moves).map (fun w => (w.isFinished, w.shared.shutdown.fatal))
      = some (true, some ⟨.task "worker 1 panicked", .ofText "lost"⟩) := by
    decide +kernel
  have hlate : w₀.along late moves = [] := by decide +kernel
  obtain ⟨w, hw, hstate⟩ := Option.map_eq_some_iff.mp hended
  obtain ⟨hfinished, hfatal⟩ := Prod.mk.inj hstate
  have hreports : Reports w₀ moves w { f with engine := .running w }.finishStop.1 :=
    reports_of_launch hlaunch hw rfl
  exact ⟨w₀, w, _, hlaunch, hw, hfinished, hreports, hfatal, by decide +kernel,
    hreports.kept _ hlate hfatal⟩

/-- The same, but the write fails as well, and is not tried again.  The failure of the worker
is kept, for it came first, and yet the stop reports that of the sequencer. -/
theorem reports_of_launch_overtaken :
    let params : Config.Params :=
      ⟨"http://node", "db", 2, 1, 1, 1, 1, 1, 1, ⟨1, 1, 1⟩, ⟨1, 1, 1⟩⟩
    let f : Fetcher := .make ⟨params, by decide +kernel⟩ (.fresh 0) .empty (.start 1 Nat.one_pos)
    let moves : List Move := [.worker 0 .turn, .worker 1 .turn,
      .worker 0 (.block (.ok ⟨1, "", "", "", [], .null⟩)), .worker 0 (.results (.ok ⟨1, []⟩)),
      .worker 0 .turn, .worker 0 .turn, .sequencer .turn, .sequencer .turn,
      .worker 1 (.panic "lost"), .sequencer (.written (.error (.ofText "disk full"))),
      .worker 0 .turn, .refresher .cancel]
    ∃ w₀ w c e, (f.launch none (.ok 2)).engine = .running w₀ ∧ w₀.after moves = some w ∧
      w.isFinished ∧ w.shared.shutdown.fatal = some c ∧
      c.error.message = "worker 1 panicked: lost" ∧
      { f with engine := .running w }.finishStop.1 = .error e ∧
      e ≠ c.error.context "ingestion pipeline aborted" ∧
      e.message = "ingestion pipeline aborted: "
        ++ "height 1 not stored after 1 attempt(s): save_block: disk full" := by
  intro params f moves
  let w₀ : World := .launch (Fetcher.runSettings f.config)
    (Refresher.heard (f.sharedAtStart none) (.ok 2)) (Height.resume none) 2
  let e : Failure := ⟨.text "ingestion pipeline aborted",
    [.storage ⟨.saveBlock, 1, 1⟩, .write .saveBlock, .text "disk full"]⟩
  have hended : (w₀.after moves).map (fun w => (w.isFinished, w.shared.shutdown.fatal,
      Fetcher.stopFailure? w)) = some (true, some ⟨.task "worker 1 panicked", .ofText "lost"⟩,
        some ⟨.storage ⟨.saveBlock, 1, 1⟩, [.write .saveBlock, .text "disk full"]⟩) := by
    decide +kernel
  obtain ⟨w, hw, hstate⟩ := Option.map_eq_some_iff.mp hended
  simp only [Prod.mk.injEq] at hstate
  obtain ⟨hfinished, hfatal, hfailure⟩ := hstate
  exact ⟨w₀, w, _, e, rfl, hw, hfinished, hfatal, by decide +kernel, outcome_of_some rfl hfailure,
    by decide +kernel, by decide +kernel⟩

end World
end BlockIngest
