import BlockIngest.Proofs.Commit.Trace
import BlockIngest.Proofs.Counter

/-!
# What the sequencer counts

Of the counters four belong to the sequencer.  Three of them follow its trace at once: a height
that is marked, its transactions and the events that are published are counted together.  The
fourth one counts attempts that failed, but not the last one that the policy allows at a height;
which one that is depends on how many attempts have failed since a height was marked last.

## Main definitions

* `strikes` — the attempts that failed, by their numbers.
* `Telemetry.commitSide` — the counters of the sequencer.
* `Sequencer.Counts` — what these say of a piece of a trace.

## Main results

* `Sequencer.counts_step` — **a step counts its effects.**
* `Sequencer.Tracked.length_published` — there is one event for each height and one for each of
  its transactions.
-/

namespace BlockIngest

/-! ### Attempts that failed -/

/-- How many attempts at the open height have failed, after one more effect. -/
def Effect.strikes (k : ℕ) : Effect → ℕ
  | .wrote _ (.error _) => k + 1
  | .wrote _ (.ok _) => k
  | .marked _ => 0
  | .published _ => k

/-- The attempts that failed, where `k` at the open height had failed before. -/
def strikesFrom (k : ℕ) : List Effect → List ℕ
  | [] => []
  | .wrote _ (.error _) :: es => (k + 1) :: strikesFrom (k + 1) es
  | e :: es => strikesFrom (e.strikes k) es

/-- The attempts that failed, each by its number among those at its height. -/
def strikes (es : List Effect) : List ℕ := strikesFrom 0 es

theorem strikesFrom_append (k : ℕ) (es ds : List Effect) :
    strikesFrom k (es ++ ds) = strikesFrom k es ++ strikesFrom (es.foldl Effect.strikes k) ds := by
  induction es generalizing k with
  | nil => rfl
  | cons e es ih =>
    cases e with
    | wrote w outcome =>
      cases outcome with
      | error e => exact congrArg ((k + 1) :: ·) (ih (k + 1))
      | ok => exact ih k
    | marked => exact ih 0
    | published => exact ih k

/-- Writes that succeed change nothing about it. -/
theorem strikes_stored (k : ℕ) (ws : List Write) : (stored ws).foldl Effect.strikes k = k := by
  induction ws with
  | nil => rfl
  | cons w ws ih => exact ih

/-- Once a height is marked, none has failed. -/
theorem strikes_closing (k : ℕ) (f : FetchedBlock) : f.closing.foldl Effect.strikes k = 0 := by
  show (f.events.map Effect.published).foldl Effect.strikes 0 = 0
  induction f.events with
  | nil => rfl
  | cons e events ih => exact ih

theorem strikesFrom_closing (k : ℕ) (f : FetchedBlock) : strikesFrom k f.closing = [] := by
  show strikesFrom 0 (f.events.map Effect.published) = []
  induction f.events with
  | nil => rfl
  | cons e events ih => exact ih

theorem Attempts.strikes_eq {f : FetchedBlock} {k : ℕ} {es : List Effect} (h : Attempts f k es)
    (j : ℕ) : es.foldl Effect.strikes j = j + k := by
  induction h with
  | none => rfl
  | fail hearlier hwrites ih =>
    rw [List.foldl_append, ih, List.foldl_append, strikes_stored]
    rfl

theorem Commits.strikes_eq {p : Retry.Policy} {fs : List FetchedBlock} {t : List Effect}
    (h : Commits p fs t) : t.foldl Effect.strikes 0 = 0 := by
  cases h with
  | nil => rfl
  | snoc =>
    rw [List.foldl_append, List.foldl_append, List.foldl_append, strikes_closing]

/-! ### Events -/

namespace FetchedBlock

theorem length_events (f : FetchedBlock) : f.events.length = 1 + f.txs.length := by
  rw [events, List.length_cons, List.length_map, Nat.add_comm]

theorem length_flatMap_events (fs : List FetchedBlock) :
    (fs.flatMap events).length = fs.length + (fs.flatMap txs).length := by
  induction fs with
  | nil => rfl
  | cons f fs ih =>
    have hevents := f.length_events
    rw [List.flatMap_cons, List.flatMap_cons, List.length_append, List.length_append,
      List.length_cons]
    omega

end FetchedBlock

/-! ### The counters of the sequencer -/

/-- The counters of the sequencer. -/
def Telemetry.commitSide (t : Telemetry) : ℕ × ℕ × ℕ × ℕ :=
  (t.committedHeights, t.committedTxs, t.eventsPublished, t.storageRetries)

/-- The counters of the workers. -/
def Telemetry.fetchSide (t : Telemetry) : ℕ × ℕ × ℕ × ℕ :=
  (t.fetchedChunks, t.releasedChunks, t.fetchErrors, t.fetchTimeouts)

namespace Sequencer

variable {p : Retry.Policy} {k : ℕ} {q q' : Sequencer} {s s' : Shared} {signal : SequencerSignal}
  {t t' t'' : Telemetry} {es ds trace : List Effect} {fs : List FetchedBlock}

/-- **What the counters say of effects**, before which `k` attempts at the open height had
failed. -/
structure Counts (p : Retry.Policy) (k : ℕ) (t : Telemetry) (es : List Effect) (t' : Telemetry) :
    Prop where
  /-- Each height that is marked is counted. -/
  heights : t'.committedHeights ≡ t.committedHeights + (marks es).length [MOD 2 ^ 64]
  /-- With it, each event is counted among the transactions, but for one a height. -/
  txs : t'.committedTxs + (marks es).length
    ≡ t.committedTxs + (published es).length [MOD 2 ^ 64]
  /-- Each event is counted. -/
  events : t'.eventsPublished ≡ t.eventsPublished + (published es).length [MOD 2 ^ 64]
  /-- Each attempt that failed is counted if another one was allowed. -/
  retries : t'.storageRetries
    ≡ t.storageRetries + (strikesFrom k es).countP (fun n => p.Permits (n + 1)) [MOD 2 ^ 64]

namespace Counts

/-- Where none of the counters is touched, nothing has happened. -/
theorem of_same (h : t'.commitSide = t.commitSide) : Counts p k t [] t' := by
  simp only [Telemetry.commitSide, Prod.mk.injEq] at h
  obtain ⟨hheights, htxs, hevents, hretries⟩ := h
  constructor
  · rw [hheights]
    exact Nat.ModEq.refl _
  · rw [htxs]
    exact Nat.ModEq.refl _
  · rw [hevents]
    exact Nat.ModEq.refl _
  · rw [hretries]
    exact Nat.ModEq.refl _

theorem append (h : Counts p k t es t') (h' : Counts p (es.foldl Effect.strikes k) t' ds t'') :
    Counts p k t (es ++ ds) t'' := by
  constructor
  · rw [marks_append, List.length_append, ← Nat.add_assoc]
    exact h'.heights.trans (h.heights.add_right _)
  · rw [marks_append, published_append, List.length_append, List.length_append]
    calc t''.committedTxs + ((marks es).length + (marks ds).length)
        = t''.committedTxs + (marks ds).length + (marks es).length := by omega
      _ ≡ t'.committedTxs + (published ds).length + (marks es).length [MOD 2 ^ 64] :=
        h'.txs.add_right _
      _ = t'.committedTxs + (marks es).length + (published ds).length := by omega
      _ ≡ t.committedTxs + (published es).length + (published ds).length [MOD 2 ^ 64] :=
        h.txs.add_right _
      _ = t.committedTxs + ((published es).length + (published ds).length) := by omega
  · rw [published_append, List.length_append, ← Nat.add_assoc]
    exact h'.events.trans (h.events.add_right _)
  · rw [strikesFrom_append, List.countP_append, ← Nat.add_assoc]
    exact h'.retries.trans (h.retries.add_right _)

/-- A height is stored, and all of it is counted. -/
theorem of_stored (w : Write) (f : FetchedBlock) (t : Telemetry) :
    Counts p k t (.wrote w (.ok ()) :: f.closing)
      ((t.committed 1 f.txs.length).published (1 + f.txs.length)) := by
  have hmarks : marks (.wrote w (.ok ()) :: f.closing) = [f.height] := marks_closing f
  have hpublished : published (.wrote w (.ok ()) :: f.closing) = f.events := published_closing f
  constructor
  · rw [hmarks]
    exact Counter.bump_modEq _ _
  · rw [hmarks, hpublished, f.length_events, Nat.add_comm 1, ← Nat.add_assoc]
    exact (Counter.bump_modEq _ _).add_right _
  · rw [hpublished, f.length_events]
    exact Counter.bump_modEq _ _
  · have hnone : strikesFrom k (.wrote w (.ok ()) :: f.closing) = [] := strikesFrom_closing k f
    rw [hnone]
    exact Nat.ModEq.refl _

/-- An attempt fails, and is counted if another one is allowed. -/
theorem of_failed (w : Write) (e : Failure)
    (h : t'.committedHeights = t.committedHeights ∧ t'.committedTxs = t.committedTxs ∧
      t'.eventsPublished = t.eventsPublished)
    (hretries : t'.storageRetries
      ≡ t.storageRetries + (if p.Permits (k + 2) then 1 else 0) [MOD 2 ^ 64]) :
    Counts p k t [.wrote w (.error e)] t' := by
  obtain ⟨hheights, htxs, hevents⟩ := h
  constructor
  · rw [hheights]
    exact Nat.ModEq.refl _
  · rw [htxs]
    exact Nat.ModEq.refl _
  · rw [hevents]
    exact Nat.ModEq.refl _
  · have hstrikes : strikesFrom k [.wrote w (.error e)] = [k + 1] := rfl
    rw [hstrikes, List.countP_singleton]
    simpa using hretries

end Counts

/-- A pending write belongs to the attempt after those that failed since a height was marked
last. -/
theorem Tracked.strikes_of_pending (h : Tracked p fs trace q) {job : CommitJob} {w : Write}
    {later : List TxResult} (hpending : q.phase.pending? = some (job, w, later)) :
    job.retry = .attemptAt p (trace.foldl Effect.strikes 0) := by
  obtain ⟨done, rest, t, es, -, rfl, hcommits, hstands⟩ := h.split
  obtain ⟨k, tries, ws, -, rfl, hretry, -, hattempts, -⟩ := hstands.of_pending hpending
  rw [List.foldl_append, hcommits.strikes_eq, List.foldl_append, hattempts.strikes_eq,
    strikes_stored, Nat.zero_add]
  exact hretry

/-- **A step counts its effects.** -/
theorem counts_step (h : Tracked p fs trace q) (hstep : Step q s signal q' s') :
    Counts p (trace.foldl Effect.strikes 0) s.telemetry (q.effects signal) s'.telemetry := by
  cases hstep with
  | listened hphase | took hphase | brokeOff hphase | missed hphase | woke hphase | left hphase
  | retried hphase | stopped hphase | ended hphase =>
    rw [effects_eq_nil (by rw [hphase]; rfl)]
    exact .of_same rfl
  | wrote hpending =>
    rw [effects_wrote hpending]
    exact ⟨.refl _, .refl _, .refl _, .refl _⟩
  | stored hpending =>
    rw [effects_stored hpending]
    exact .of_stored _ _ _
  | paused hpending hjudge =>
    rw [h.strikes_of_pending hpending] at hjudge
    rw [effects_failed hpending]
    refine .of_failed _ _ ⟨rfl, rfl, rfl⟩ ?_
    rw [if_pos (Retry.permits_of_pause hjudge)]
    exact Counter.bump_modEq _ _
  | gaveUp hpending hlast =>
    rw [h.strikes_of_pending hpending] at hlast
    rw [effects_failed hpending]
    refine .of_failed _ _ ⟨rfl, rfl, rfl⟩ ?_
    rw [if_neg (Retry.isLast_attemptAt.mp hlast)]
    exact .refl _

/-- The sequencer leaves the counters of the workers alone. -/
theorem fetchSide_step (hstep : Step q s signal q' s') :
    s'.telemetry.fetchSide = s.telemetry.fetchSide := by
  cases hstep <;> rfl

/-- There is one event for each height that is committed, and one for each of its
transactions. -/
theorem Tracked.length_published (h : Tracked p fs trace q) : (published trace).length
    = (marks trace).length + ((commits trace).flatMap Prod.snd).length := by
  obtain ⟨done, rest, -, hmarks, hpublished, hcommits⟩ := h.tells
  rw [hmarks, hpublished, hcommits, List.flatMap_map, List.length_map]
  exact FetchedBlock.length_flatMap_events done

end Sequencer
end BlockIngest
