import BlockIngest.Proofs.Pipeline.Supervision

/-!
# The first report wins

All parts of the pipeline share the tokens of a run and the place for its first fatal
failure.  A part that gives up reports why: a height that could not be written, or a task
that has ended.  The first report is kept for good and cancels both tokens, and its reporter
gets back what everybody gets who asks later: the origin, explained by the whole chain of
the failure.  All later reporters get back their own failure as it was.

Until then only others cancel tokens.

## Main definitions

* `Shutdown.Report`, `Shutdown.Report.capture` — a report, and what is kept of it if it is the
  first.
* `Shutdown.Act`, `Shutdown.step`, `Shutdown.after` — what is done, and what it leaves behind.
* `Shutdown.answers` — what the reporters get back.
* `Capture.Wrapped`, `Shutdown.FirstWins` — the law of what is kept, and that of reports.

## Main results

* `Capture.wrapped` — nothing of a failure is lost on the way, and nothing is said twice.
* `Shutdown.answers_eq` — what the reporters get back, in closed form.
* `Shutdown.firstWins` — **the first report wins**, whatever is done.
-/

namespace BlockIngest

/-! ### What is kept -/

/-- The height that was given up, if a cause says so. -/
def Cause.storageError? : Cause → Option StorageError
  | .storage e => some e
  | _ => none

/-- The height that was given up, looked for in the whole chain. -/
def Failure.storageError? (f : Failure) : Option StorageError :=
  f.chain.findSome? Cause.storageError?

namespace Capture

/-- **What everybody gets who asks for a failure that was kept.** -/
structure Wrapped (c : Capture) (f : Failure) : Prop where
  /-- It is the origin, explained by the failure: no cause is lost, and none is repeated. -/
  chain : f.chain = .fatal c.origin :: c.failure.chain
  /-- In words, too. -/
  words : f.chain.map Cause.message = c.origin.message :: c.failure.chain.map Cause.message
  /-- So are they when the whole chain is told as one text. -/
  message : f.message = c.origin.message ++ ": " ++ c.failure.message
  /-- A height that was given up is still found, with all that is known of it. -/
  storageError : f.storageError? = c.failure.storageError?

theorem wrapped (c : Capture) : c.Wrapped c.error := by
  constructor
  · rfl
  · rfl
  · exact String.intercalate_cons_cons
  · rfl

end Capture

namespace Shutdown

/-! ### What is done -/

/-- A report that a part of the pipeline gives up. -/
inductive Report where
  /-- A height could not be written, for the reason `source`. -/
  | storage (e : StorageError) (source : Failure)
  /-- A task ended that must not end. -/
  | task (context : String) (failure : Failure)

/-- What is kept of a report: who has reported, and the reporter's own failure. -/
def Report.capture : Report → Capture
  | .storage e source => ⟨.storage e.height, source.under (.storage e)⟩
  | .task context failure => ⟨.task context, failure⟩

/-- What is done with the tokens of a run and its first fatal failure. -/
inductive Act where
  /-- A part of the pipeline reports that it gives up. -/
  | report (r : Report)
  /-- Somebody else cancels the token of the run. -/
  | cancelRun
  /-- Somebody else cancels the root token. -/
  | cancelRoot

/-- The report that is made. -/
def Act.report? : Act → Option Report
  | .report r => some r
  | _ => none

/-- What a reporter gets back, and what is left behind. -/
def report (s : Shutdown) : Report → Failure × Shutdown
  | .storage e source => s.storageFailed e source
  | .task context failure => s.taskFailed context failure

/-- What is left behind. -/
def step (s : Shutdown) : Act → Shutdown
  | .report r => (s.report r).2
  | .cancelRun => s.cancelRun
  | .cancelRoot => s.cancelRoot

/-- What is left behind in the end. -/
def after (s : Shutdown) (acts : List Act) : Shutdown := acts.foldl step s

/-- What the reporters get back, in their order. -/
def answers (s : Shutdown) : List Act → List Failure
  | [] => []
  | .report r :: acts => (s.report r).1 :: (s.report r).2.answers acts
  | act :: acts => (s.step act).answers acts

/-- The reports that are made. -/
def reports (acts : List Act) : List Report := acts.filterMap Act.report?

variable {s : Shutdown} {acts : List Act} {r : Report}

/-- Both ways to report come to the same: the guard of the one only turns away what the other
would turn away later. -/
theorem report_eq (s : Shutdown) (r : Report) :
    s.report r = s.capture r.capture.origin r.capture.failure := by
  cases r with
  | storage => rfl
  | task => exact taskFailed_eq _ _ _

/-- What the first report leaves behind. -/
def ended (c : Capture) : Shutdown := ⟨true, true, some c⟩

theorem report_of_none (h : s.fatal = none) (r : Report) :
    s.report r = (r.capture.error, ended r.capture) := by
  rw [report_eq, capture_of_none h]
  rfl

theorem report_ended (c : Capture) (r : Report) :
    (ended c).report r = (r.capture.failure, ended c) := by
  rw [report_eq, capture_of_some rfl]

/-! ### After the first report -/

/-- Nothing changes any more. -/
theorem step_ended (c : Capture) (act : Act) : (ended c).step act = ended c := by
  cases act with
  | report r => exact congrArg Prod.snd (report_ended c r)
  | cancelRun | cancelRoot => rfl

theorem after_ended (c : Capture) (acts : List Act) : (ended c).after acts = ended c := by
  induction acts with
  | nil => rfl
  | cons act acts ih =>
    show ((ended c).step act).after acts = ended c
    rw [step_ended, ih]

/-- Every reporter gets back the own failure. -/
theorem answers_ended (c : Capture) (acts : List Act) :
    (ended c).answers acts = (reports acts).map fun r => r.capture.failure := by
  induction acts with
  | nil => rfl
  | cons act acts ih =>
    cases act with
    | report r =>
      show ((ended c).report r).1 :: ((ended c).report r).2.answers acts = _
      rw [report_ended, ih]
      rfl
    | cancelRun | cancelRoot => exact ih

/-! ### From the start -/

/-- Only others have cancelled tokens. -/
structure Untouched (s₀ s : Shutdown) (acts : List Act) : Prop where
  fatal : s.fatal = none
  root_iff : s.root ↔ s₀.root ∨ .cancelRoot ∈ acts
  run_iff : s.run ↔ s₀.run ∨ .cancelRun ∈ acts ∨ .cancelRoot ∈ acts

/-- Without a report, no failure is kept, and only others have cancelled tokens. -/
theorem untouched_after (h : s.fatal = none) (hnone : reports acts = []) :
    Untouched s (s.after acts) acts := by
  induction acts generalizing s with
  | nil => exact ⟨h, by simp [after], by simp [after]⟩
  | cons act acts ih =>
    cases act with
    | report => cases hnone
    | cancelRun =>
      obtain ⟨hfatal, hroot, hrun⟩ := ih (s := s.cancelRun) h hnone
      exact ⟨hfatal, hroot.trans (by simp [cancelRun]), hrun.trans (by simp [cancelRun])⟩
    | cancelRoot =>
      obtain ⟨hfatal, hroot, hrun⟩ := ih (s := s.cancelRoot) h hnone
      exact ⟨hfatal, hroot.trans (by simp [cancelRoot]), hrun.trans (by simp [cancelRoot])⟩

/-- The first report is kept, and its reporter gets back what is kept. -/
theorem first_of_reports {rs : List Report} (h : s.fatal = none) (hsome : reports acts = r :: rs) :
    s.after acts = ended r.capture ∧
      s.answers acts = r.capture.error :: rs.map fun r => r.capture.failure := by
  induction acts generalizing s with
  | nil => cases hsome
  | cons act acts ih =>
    cases act with
    | report r' =>
      -- this is the first one: nothing that comes later changes what it leaves behind
      obtain ⟨rfl, rfl⟩ := List.cons.inj hsome
      show (s.report r').2.after acts = _ ∧ (s.report r').1 :: (s.report r').2.answers acts = _
      rw [report_of_none h, after_ended, answers_ended]
      exact ⟨rfl, rfl⟩
    | cancelRun => exact ih (s := s.cancelRun) h hsome
    | cancelRoot => exact ih (s := s.cancelRoot) h hsome

/-- **The law of reports.** -/
structure FirstWins (s₀ : Shutdown) (acts : List Act) : Prop where
  /-- Before the first report there is no failure that anybody could ask for. -/
  vacant : reports acts = [] → (s₀.after acts).origin? = none ∧ (s₀.after acts).error? = none ∧
    ¬ (s₀.after acts).isTriggered
  /-- Before the first report only others have cancelled tokens. -/
  untouched : reports acts = [] → Untouched s₀ (s₀.after acts) acts
  /-- After the first report its origin and its failure are there for everybody who asks, and
  both tokens are cancelled.  Its reporter got back what everybody gets, and all other
  reporters their own failures. -/
  kept : ∀ r rs, reports acts = r :: rs →
    (s₀.after acts).origin? = some r.capture.origin ∧ (s₀.after acts).isTriggered ∧
    (s₀.after acts).run ∧ (s₀.after acts).root ∧
    ∃ f, (s₀.after acts).error? = some f ∧ r.capture.Wrapped f ∧
      s₀.answers acts = f :: rs.map fun r => r.capture.failure
  /-- After the first report nothing changes any more. -/
  lasting : reports acts ≠ [] → ∀ more, s₀.after (acts ++ more) = s₀.after acts

/-- **The first report wins**, whatever is done with the tokens of a run, and whether they
were cancelled at the start or not. -/
theorem firstWins (root run : Bool) (acts : List Act) :
    FirstWins ⟨root, run, none⟩ acts := by
  constructor
  · intro hnone
    have hfatal := (untouched_after (s := ⟨root, run, none⟩) rfl hnone).fatal
    simp [origin?, error?, isTriggered, hfatal]
  · exact untouched_after rfl
  · intro r rs hsome
    obtain ⟨hafter, hanswers⟩ := first_of_reports (s := ⟨root, run, none⟩) rfl hsome
    rw [hafter, hanswers]
    exact ⟨rfl, rfl, rfl, rfl, _, rfl, r.capture.wrapped, rfl⟩
  · intro hsome more
    obtain ⟨r, rs, hreports⟩ := List.exists_cons_of_ne_nil hsome
    obtain ⟨hafter, -⟩ := first_of_reports (s := ⟨root, run, none⟩) rfl hreports
    -- later acts go on from where the first report has left everything
    show (acts ++ more).foldl step _ = _
    rw [List.foldl_append]
    show (Shutdown.after _ acts).after more = Shutdown.after _ acts
    rw [hafter, after_ended]

end Shutdown
end BlockIngest
