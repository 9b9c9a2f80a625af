import BlockIngest.Proofs.Commit.Tally
import BlockIngest.Proofs.Fetch.Outcome
import BlockIngest.Proofs.Planner.Operations

/-!
# What workers count

Four counters belong to the workers.  A chunk is counted once the buffer has let it in, and an
attempt that failed unless the node is behind its head.  If no other attempt follows, then the
fetch has ended and the range is given back; and the planner counts this if it knows the range for
a claimed one.

## Main definitions

* `FailedAttempt` — an attempt that failed, and whether it ends the fetch.
* `Worker.failed?`, `Worker.entering?` — the attempt that fails in a step, and the chunk that is let
  in.
* `Worker.Counts` — what the counters of the workers say.

## Main results

* `Worker.failed?_eq_some_iff` — attempts fail as `Worker.Fails` says.
* `Worker.counts_step` — **a step counts the attempt that fails in it and the chunk that is let
  in.**
-/

namespace BlockIngest

/-! ### Attempts that failed -/

/-- An attempt to fetch a range that failed. -/
structure FailedAttempt where
  /-- What was fetched. -/
  job : FetchJob
  /-- Why it failed. -/
  failure : Failure

namespace FailedAttempt

variable {x : FailedAttempt}

/-- Whether the node does not have the height yet. -/
def isBehind (x : FailedAttempt) : Bool := (Worker.missing? x.failure).isSome

/-- Whether the node did not answer in time. -/
def isTimeout (x : FailedAttempt) : Bool :=
  match x.failure.rpcError? with
  | some (.timeout _) => true
  | _ => false

/-- Whether the fetch ends with this attempt: the node is behind, or no attempt is left. -/
def isEnd (x : FailedAttempt) : Bool := x.isBehind || x.job.retry.isLast

/-- Whether its range begins below the top. -/
def isBelowTop (x : FailedAttempt) : Bool := decide (x.job.range.first < Height.top)

theorem isTimeout_iff : x.isTimeout ↔ ∃ method, x.failure.IsAbout (.timeout method) := by
  simp only [Failure.isAbout_iff]
  unfold isTimeout
  split
  · next method hmethod => exact ⟨fun _ => ⟨method, hmethod⟩, fun _ => rfl⟩
  · next hother =>
    constructor
    · intro h
      cases h
    · rintro ⟨method, hmethod⟩
      exact absurd hmethod (hother method)

/-- A height that is missing is no timeout. -/
theorem isTimeout_of_isBehind (h : x.isBehind) : x.isTimeout = false := by
  unfold isBehind Worker.missing? at h
  unfold isTimeout
  split at h
  · next k hk => rw [hk]
  · cases h

theorem isBehind_of_missing {k : ℕ} (h : Worker.missing? x.failure = some k) : x.isBehind := by
  rw [isBehind, h]
  rfl

theorem isBehind_eq_false (h : Worker.missing? x.failure = none) : x.isBehind = false := by
  rw [isBehind, h]
  rfl

/-- Where the node is not behind, a fetch ends with the last attempt. -/
theorem isEnd_eq_isLast (h : x.isBehind = false) : x.isEnd = x.job.retry.isLast := by
  rw [isEnd, h, Bool.false_or]

end FailedAttempt

namespace Shared

variable (s : Shared) (r : ChunkRange)

@[simp] theorem fetchedChunks_giveUp :
    (s.giveUp r).telemetry.fetchedChunks = s.telemetry.fetchedChunks := by
  unfold giveUp
  split <;> rfl

/-- A range that is given up is counted if it is claimed. -/
theorem releasedChunks_giveUp : (s.giveUp r).telemetry.releasedChunks
    = if s.planner.claimed.find? r.first = some r then Counter.bump s.telemetry.releasedChunks 1
      else s.telemetry.releasedChunks := by
  unfold giveUp
  split_ifs with hr
  · rw [Planner.release_claimed hr]
    rfl
  · rw [Planner.release_unclaimed hr]

theorem commitSide_giveUp : (s.giveUp r).telemetry.commitSide = s.telemetry.commitSide := by
  unfold giveUp
  split <;> rfl

end Shared

namespace Worker

variable {settings : Settings} {id : ℕ} {s s' : Shared} {phase next : WorkerPhase}
  {signal : WorkerSignal} {job : FetchJob} {e : Failure} {t t' t'' : Telemetry}
  {ds ds' : List CompletedChunk} {xs xs' : List FailedAttempt} {x : FailedAttempt}

/-- The attempt that fails with an answer. -/
def failed? : WorkerPhase → WorkerSignal → Option FailedAttempt
  | .awaitingBlock job, .block (.error e) => some ⟨job, e⟩
  | .awaitingBlock job, .block (.ok b) =>
      if b.height = job.height then none
      else some ⟨job, .ofRpc (.inconsistent job.height s!"node returned block {b.height}")⟩
  | .awaitingResults job _, .results (.error e) => some ⟨job, e⟩
  | .awaitingResults job b, .results (.ok r) =>
      match FetchedBlock.assemble b r with
      | .error e => some ⟨job, .ofRpc e⟩
      | .ok _ => none
  | _, _ => none

/-- The chunk that the buffer lets in. -/
def entering? (b : Buffer) : WorkerPhase → WorkerSignal → Option CompletedChunk
  | .submitting d .looking, .turn => if b.admission d = .stored then some d else none
  | _, _ => none

theorem Fails.failed?_eq (h : Fails phase signal job e) : failed? phase signal = some ⟨job, e⟩ := by
  cases h with
  | noBlock | noResults => rfl
  | otherBlock hheight => exact if_neg hheight
  | otherResults hassemble => simp only [failed?, hassemble]

/-- **Attempts fail as `Fails` says.** -/
theorem failed?_eq_some_iff : failed? phase signal = some ⟨job, e⟩ ↔ Fails phase signal job e := by
  refine ⟨fun h => ?_, Fails.failed?_eq⟩
  unfold failed? at h
  split at h
  case h_1 =>
    cases h
    exact .noBlock
  case h_2 =>
    split at h
    · cases h
    · next hheight =>
      cases h
      exact .otherBlock hheight
  case h_3 =>
    cases h
    exact .noResults
  case h_4 =>
    split at h
    · next hassemble =>
      cases h
      exact .otherResults hassemble
    · cases h
  case h_5 => cases h

theorem Fails.entering?_eq (h : Fails phase signal job e) (b : Buffer) :
    entering? b phase signal = none := by
  cases h <;> rfl

/-! ### The counters -/

/-- **What the counters of the workers say** of chunks that were let in and attempts that failed. -/
structure Counts (t : Telemetry) (ds : List CompletedChunk) (xs : List FailedAttempt)
    (t' : Telemetry) : Prop where
  /-- Each chunk is counted. -/
  chunks : t'.fetchedChunks ≡ t.fetchedChunks + ds.length [MOD 2 ^ 64]
  /-- Each attempt is counted, unless the node was behind. -/
  errors : t'.fetchErrors ≡ t.fetchErrors + xs.countP (fun x => !x.isBehind) [MOD 2 ^ 64]
  /-- Each timeout is. -/
  timeouts : t'.fetchTimeouts
    ≡ t.fetchTimeouts + xs.countP FailedAttempt.isTimeout [MOD 2 ^ 64]
  /-- Each attempt that ends a fetch is counted, unless its range begins at the top. -/
  released : ∃ n, xs.countP (fun x => x.isEnd && x.isBelowTop) ≤ n ∧
    n ≤ xs.countP FailedAttempt.isEnd ∧
    t'.releasedChunks ≡ t.releasedChunks + n [MOD 2 ^ 64]

namespace Counts

/-- Where none of the counters is touched, nothing has happened. -/
theorem of_same (h : t'.fetchSide = t.fetchSide) : Counts t [] [] t' := by
  simp only [Telemetry.fetchSide, Prod.mk.injEq] at h
  obtain ⟨hchunks, hreleased, herrors, htimeouts⟩ := h
  refine ⟨?_, ?_, ?_, 0, le_rfl, le_rfl, ?_⟩
  · rw [hchunks]
    exact Nat.ModEq.refl _
  · rw [herrors]
    exact Nat.ModEq.refl _
  · rw [htimeouts]
    exact Nat.ModEq.refl _
  · rw [hreleased]
    exact Nat.ModEq.refl _

theorem append (h : Counts t ds xs t') (h' : Counts t' ds' xs' t'') :
    Counts t (ds ++ ds') (xs ++ xs') t'' := by
  obtain ⟨n, hlow, hhigh, hn⟩ := h.released
  obtain ⟨n', hlow', hhigh', hn'⟩ := h'.released
  refine ⟨?_, ?_, ?_, n + n', ?_, ?_, ?_⟩
  · rw [List.length_append, ← Nat.add_assoc]
    exact h'.chunks.trans (h.chunks.add_right _)
  · rw [List.countP_append, ← Nat.add_assoc]
    exact h'.errors.trans (h.errors.add_right _)
  · rw [List.countP_append, ← Nat.add_assoc]
    exact h'.timeouts.trans (h.timeouts.add_right _)
  · rw [List.countP_append]
    exact Nat.add_le_add hlow hlow'
  · rw [List.countP_append]
    exact Nat.add_le_add hhigh hhigh'
  · rw [← Nat.add_assoc]
    exact hn'.trans (hn.add_right _)

/-- An attempt fails.  It is an error unless the node was behind; and if it ends the fetch, the
range may be counted, and is if it begins below the top. -/
theorem of_attempt (hchunks : t'.fetchedChunks = t.fetchedChunks)
    (herrors : t'.fetchErrors
      = if x.isBehind then t.fetchErrors else Counter.bump t.fetchErrors 1)
    (htimeouts : t'.fetchTimeouts
      = if x.isTimeout then Counter.bump t.fetchTimeouts 1 else t.fetchTimeouts)
    (hreleased : (x.isEnd && x.isBelowTop) = false ∧ t'.releasedChunks = t.releasedChunks ∨
      x.isEnd ∧ t'.releasedChunks = Counter.bump t.releasedChunks 1) :
    Counts t [] [x] t' := by
  refine ⟨?_, ?_, ?_, ?_⟩
  · rw [hchunks]
    exact Nat.ModEq.refl _
  · rw [herrors, List.countP_singleton]
    cases x.isBehind
    · exact Counter.bump_modEq _ _
    · exact Nat.ModEq.refl _
  · rw [htimeouts, List.countP_singleton]
    cases x.isTimeout
    · exact Nat.ModEq.refl _
    · exact Counter.bump_modEq _ _
  · simp only [List.countP_singleton]
    rcases hreleased with ⟨hnot, hsame⟩ | ⟨hend, hbump⟩
    · refine ⟨0, ?_, Nat.zero_le _, ?_⟩
      · rw [hnot]
        exact le_rfl
      · rw [hsame]
        exact Nat.ModEq.refl _
    · refine ⟨1, ?_, ?_, ?_⟩
      · split <;> decide
      · rw [hend]
        exact le_rfl
      · rw [hbump]
        exact Counter.bump_modEq _ _

end Counts

/-! ### Steps -/

@[simp] theorem fetchedChunks_countFailure (e : Failure) (t : Telemetry) :
    (countFailure e t).fetchedChunks = t.fetchedChunks := by
  unfold countFailure
  split <;> rfl

@[simp] theorem releasedChunks_countFailure (e : Failure) (t : Telemetry) :
    (countFailure e t).releasedChunks = t.releasedChunks := by
  unfold countFailure
  split <;> rfl

theorem fetchTimeouts_countFailure (x : FailedAttempt) (t : Telemetry) :
    (countFailure x.failure t).fetchTimeouts
      = if x.isTimeout then Counter.bump t.fetchTimeouts 1 else t.fetchTimeouts := by
  by_cases hx : x.isTimeout
  · obtain ⟨method, hmethod⟩ := FailedAttempt.isTimeout_iff.mp hx
    rw [countFailure_of_timeout hmethod, if_pos hx]
    rfl
  · have hother : ∀ method, ¬ x.failure.IsAbout (.timeout method) := fun method hmethod =>
      hx (FailedAttempt.isTimeout_iff.mpr ⟨method, hmethod⟩)
    rw [countFailure_of_not hother, if_neg hx]
    rfl

theorem commitSide_countFailure (e : Failure) (t : Telemetry) :
    (countFailure e t).commitSide = t.commitSide := by
  unfold countFailure
  split <;> rfl

/-- A worker leaves the counters of the sequencer alone. -/
theorem commitSide_step (h : Step settings id s phase signal next s') :
    s'.telemetry.commitSide = s.telemetry.commitSide := by
  cases h with
  | paused => exact commitSide_countFailure _ _
  | gaveUp => exact (Shared.commitSide_giveUp _ _).trans (commitSide_countFailure _ _)
  | behind => exact Shared.commitSide_giveUp _ _
  | stopped | claimed | overflowed | rested | rose | received | fetched | completed | misfit
  | retried | abandoned | panicked | listened | admitted | dropped | refused | told
  | withdrew => rfl

/-- The range of a fetch that has ended is given up. -/
theorem Counts.of_giveUp (hend : x.isEnd)
    (hclaimed : x.job.range.first < Height.top →
      s.planner.claimed.find? x.job.range.first = some x.job.range)
    (hchunks : s.telemetry.fetchedChunks = t.fetchedChunks)
    (hreleased : s.telemetry.releasedChunks = t.releasedChunks)
    (herrors : s.telemetry.fetchErrors
      = if x.isBehind then t.fetchErrors else Counter.bump t.fetchErrors 1)
    (htimeouts : s.telemetry.fetchTimeouts
      = if x.isTimeout then Counter.bump t.fetchTimeouts 1 else t.fetchTimeouts) :
    Counts t [] [x] (s.giveUp x.job.range).telemetry := by
  refine .of_attempt ?_ ?_ ?_ ?_
  · rw [Shared.fetchedChunks_giveUp, hchunks]
  · rw [Shared.fetchErrors_giveUp, herrors]
  · rw [Shared.fetchTimeouts_giveUp, htimeouts]
  · rw [Shared.releasedChunks_giveUp, hreleased]
    by_cases hr : s.planner.claimed.find? x.job.range.first = some x.job.range
    · rw [if_pos hr]
      exact Or.inr ⟨hend, rfl⟩
    · -- the planner does not know a range of the top for a claimed one
      rw [if_neg hr]
      have hnot : x.isBelowTop = false := decide_eq_false fun htop => hr (hclaimed htop)
      exact Or.inl ⟨by rw [hnot, Bool.and_false], rfl⟩

/-- **A step counts the attempt that fails in it and the chunk that is let in**, if the chunk is not
dropped and a range below the top is claimed as long as it is held. -/
theorem counts_step (h : Step settings id s phase signal next s')
    (hstale : ∀ d, phase = .submitting d .looking → s.buffer.admission d ≠ .stale)
    (hclaimed : ∀ r, phase.held? = some r → r.first < Height.top →
      s.planner.claimed.find? r.first = some r) :
    Counts s.telemetry (entering? s.buffer phase signal).toList (failed? phase signal).toList
      s'.telemetry := by
  cases h with
  | stopped hphase =>
    obtain ⟨rfl, rfl⟩ | ⟨rfl, rfl⟩ := hphase
    · exact .of_same rfl
    · exact .of_same rfl
  | claimed | overflowed | rested | rose | retried | listened | told => exact .of_same rfl
  | @withdrew d call => cases call <;> exact .of_same rfl
  | @received job b hheight =>
    have hnone : failed? (.awaitingBlock job) (.block (.ok b)) = none := if_pos hheight
    rw [hnone]
    exact .of_same rfl
  | fetched hassemble | completed hassemble | misfit hassemble =>
    simp only [failed?, hassemble]
    exact .of_same rfl
  | abandoned hjob hcancel hsignal =>
    obtain rfl | ⟨⟨length, rfl⟩, rfl⟩ := hsignal
    · cases phase <;> cases hjob <;> exact .of_same rfl
    · exact .of_same rfl
  | panicked hcalling =>
    obtain rfl | ⟨b, rfl⟩ := hcalling
    · exact .of_same rfl
    · exact .of_same rfl
  | @admitted d hadmission =>
    have hin : entering? s.buffer (.submitting d .looking) .turn = some d := if_pos hadmission
    rw [hin]
    exact ⟨Counter.bump_modEq _ _, .refl _, .refl _, 0, le_rfl, le_rfl, .refl _⟩
  | dropped hadmission => exact absurd hadmission (hstale _ rfl)
  | @refused d hadmission =>
    have hout : entering? s.buffer (.submitting d .looking) .turn = none :=
      if_neg (by rw [hadmission]; decide)
    rw [hout]
    exact .of_same rfl
  | @paused phase signal job e length hfails hmissing hjudge =>
    have hbehind := FailedAttempt.isBehind_eq_false (x := ⟨job, e⟩) hmissing
    have hend := (FailedAttempt.isEnd_eq_isLast hbehind).trans (Retry.isLast_of_pause hjudge)
    rw [hfails.entering?_eq, hfails.failed?_eq]
    refine .of_attempt (fetchedChunks_countFailure _ _) ?_
      (fetchTimeouts_countFailure ⟨job, e⟩ _) ?_
    · rw [hbehind]
      exact fetchErrors_countFailure _ _
    · exact Or.inl ⟨by rw [hend, Bool.false_and], releasedChunks_countFailure _ _⟩
  | @gaveUp phase signal job e hfails hmissing hlast =>
    have hbehind := FailedAttempt.isBehind_eq_false (x := ⟨job, e⟩) hmissing
    have hend := (FailedAttempt.isEnd_eq_isLast hbehind).trans hlast
    rw [hfails.entering?_eq, hfails.failed?_eq]
    refine Counts.of_giveUp (x := ⟨job, e⟩) hend
      (hclaimed _ (WorkerPhase.held?_of_job? hfails.job?_eq)) (fetchedChunks_countFailure _ _)
      (releasedChunks_countFailure _ _) ?_ (fetchTimeouts_countFailure ⟨job, e⟩ _)
    rw [hbehind]
    exact fetchErrors_countFailure _ _
  | @behind phase signal job e k hfails hmissing =>
    have hbehind := FailedAttempt.isBehind_of_missing (x := ⟨job, e⟩) hmissing
    have hend : FailedAttempt.isEnd ⟨job, e⟩ := by
      rw [FailedAttempt.isEnd, hbehind]
      rfl
    have hheld := WorkerPhase.held?_of_job? hfails.job?_eq
    obtain ⟨-, -, hsame, -⟩ := Planner.sameRanges_observe s.planner (Height.prev k)
    rw [hfails.entering?_eq, hfails.failed?_eq]
    refine Counts.of_giveUp (x := ⟨job, e⟩) (s := s.observe (Height.prev k)) hend
      (fun htop => hsame ▸ hclaimed _ hheld htop) rfl rfl ?_ ?_
    · rw [hbehind]
      rfl
    · rw [FailedAttempt.isTimeout_of_isBehind hbehind]
      rfl

end Worker
end BlockIngest
