import BlockIngest.Pipeline.Fetcher
import BlockIngest.Proofs.Store.Latest
import BlockIngest.Proofs.Store.Progress

/-!
# Restarts

A fetcher may be started, stopped and cancelled as often as one likes, its process
may be aborted at any moment and begun again over the same store, and every call to
the node, every write and every reading of the latest height may fail.  None of this
leaves a gap: the store always holds a chain up to some height, and the next run goes
on above it.

This takes as many numbers as a block has transactions.  A longer block is committed as
well, but the store never reports its height.

## Main definitions

* `Fetcher.Reachable` — the fetchers that come about in this way.
* `Fetcher.Consistent` — the invariant.

## Main results

* `Fetcher.Consistent.launch` — a run that is launched begins above what is stored.
* `Fetcher.Reachable.consistent` — **every fetcher that comes about keeps the
  invariant.**
* `Fetcher.exists_committed` — the first height of a chain may be committed, however many
  transactions it has.
* `Fetcher.restart_consistent` — **no height is skipped, and none is left partial
  below the height at which the next run begins.**
-/

namespace BlockIngest
namespace Fetcher

/-- What is stored. -/
def store (f : Fetcher) : Store := f.engine.standing.store

/-- The fetchers that come about over a chain, beginning with an empty store.  A start
that cannot read the latest height changes nothing. -/
inductive Reachable (c : Chain) : Fetcher → Prop where
  /-- A fetcher over an empty store. -/
  | make {config : Config} {token : Token} {publisher : Publisher} :
      Reachable c (make config token .empty publisher)
  /-- The process is aborted, whatever it was doing, and another one begins over the
  same store. -/
  | abort {f : Fetcher} {config : Config} {token : Token} {publisher : Publisher}
      (hf : Reachable c f) : Reachable c (Fetcher.make config token f.store publisher)
  /-- A start is given up after the latest height was read. -/
  | prepare {f f' : Fetcher} {latest : Option ℕ} (hf : Reachable c f)
      (hprepare : f.prepare (.ok f.store.latestHeight) = .ok (latest, f')) : Reachable c f'
  /-- It is started; the head of the chain may be unknown. -/
  | launch {f f' : Fetcher} {latest : Option ℕ} {head : Except Failure ℕ} (hf : Reachable c f)
      (hprepare : f.prepare (.ok f.store.latestHeight) = .ok (latest, f'))
      (hhead : Refresher.Bounded head) : Reachable c (f'.launch latest head)
  /-- Its run moves. -/
  | move {f : Fetcher} {w w' : World} {m : Move} (hf : Reachable c f)
      (hrunning : f.engine = .running w) (hallows : w.Allows c m) (hmove : w.move m = some w') :
      Reachable c { f with engine := .running w' }
  /-- Its root token is cancelled. -/
  | cancelRoot {f : Fetcher} (hf : Reachable c f) : Reachable c f.cancelRoot
  /-- It is asked to stop. -/
  | requestStop {f : Fetcher} (hf : Reachable c f) : Reachable c f.requestStop
  /-- It has stopped; its tasks need not even have ended by themselves. -/
  | finishStop {f : Fetcher} (hf : Reachable c f) : Reachable c f.finishStop.2
  /-- Its root token is replaced, at whatever time. -/
  | replaceToken {f : Fetcher} {token : Token} (hf : Reachable c f) :
      Reachable c (f.replaceToken token)

/-! ### The invariant -/

/-- Without a run the store holds a chain up to some height; a run follows the chain
from where its ledger had come to. -/
def Consistent (c : Chain) (f : Fetcher) : Prop :=
  match f.engine with
  | .idle standing _ => ∃ k < Height.top, standing.store.Holds c k
  | .running w => ∃ k l₀ fs trace, Ledger.Reaches c k l₀ ∧ w.Follows c (k + 1) l₀ fs trace

variable {c : Chain} {k : ℕ} {f f' : Fetcher} {latest : Option ℕ} {head : Except Failure ℕ}
  {w : World}

theorem consistent_idle {standing : Standing} {planner : Option Planner}
    (hengine : f.engine = .idle standing planner) :
    Consistent c f ↔ ∃ k < Height.top, standing.store.Holds c k := by
  unfold Consistent
  rw [hengine]

theorem consistent_running (hengine : f.engine = .running w) :
    Consistent c f ↔
      ∃ k l₀ fs trace, Ledger.Reaches c k l₀ ∧ w.Follows c (k + 1) l₀ fs trace := by
  unfold Consistent
  rw [hengine]

theorem Consistent.reaches (h : Consistent c f) (hc : c.Numbered)
    (hengine : f.engine = .running w) :
    ∃ k < Height.top, w.shared.ledger.Reaches c k := by
  obtain ⟨k, l₀, fs, trace, hl₀, hfollows⟩ := (consistent_running hengine).mp h
  exact hfollows.reaches hc hl₀

theorem Consistent.holds (h : Consistent c f) (hc : c.Numbered) :
    ∃ k < Height.top, f.store.Holds c k := by
  unfold store
  rcases hengine : f.engine with ⟨standing, planner⟩ | w
  · exact (consistent_idle hengine).mp h
  · obtain ⟨k, hk, hreaches⟩ := h.reaches hc hengine
    exact ⟨k, hk, hreaches.holds⟩

/-! ### Starts -/

/-- A start that has read the latest height has made it the last committed one, and
there is no run. -/
theorem prepare_eq_ok {answer : Option ℕ} (h : f.prepare (.ok answer) = .ok (latest, f')) :
    latest = answer ∧ ∃ standing planner, f.engine = .idle standing planner ∧
      f' = { f with engine := .idle { standing with progress := .ofHeight? answer } planner } := by
  unfold prepare at h
  split at h
  · cases h
  · next hidle =>
    rcases hengine : f.engine with ⟨standing, planner⟩ | w
    · cases h
      rw [hengine]
      exact ⟨rfl, standing, planner, rfl, rfl⟩
    · unfold isRunning at hidle
      rw [hengine] at hidle
      exact absurd rfl hidle

theorem resume_reached (hk : k < Height.top) : Height.resume (Ledger.reached k) = k + 1 := by
  unfold Ledger.reached Height.resume
  split
  · next hzero =>
    subst hzero
    exact Height.next_of_lt hk
  · exact Height.next_of_lt hk

/-- What is launched is the run above what is stored. -/
theorem engine_launch (hprepare : f.prepare (.ok f.store.latestHeight) = .ok (latest, f')) :
    (f'.launch latest head).engine = .running
      (.resumed (runSettings f.config) f'.engine.standing f.baseToken.cancelled
        f.config.maxChunkSize_pos f.config.maxBufferedChunks_pos f.config.params.maxSlots head) ∧
      f'.store = f.store ∧ f'.engine.standing.progress = .ofHeight? f.store.latestHeight := by
  obtain ⟨rfl, standing, planner, hengine, rfl⟩ := prepare_eq_ok hprepare
  have hstore : f.store = standing.store := by
    unfold store
    rw [hengine]
    rfl
  rw [hstore]
  exact ⟨rfl, rfl, rfl⟩

/-- A run that is launched follows the chain from above what is stored. -/
theorem follows_launch (hk : k < Height.top) (hholds : f.store.Holds c k)
    (hprepare : f.prepare (.ok f.store.latestHeight) = .ok (latest, f'))
    (hhead : Refresher.Bounded head) :
    ∃ w l₀, (f'.launch latest head).engine = .running w ∧ Ledger.Reaches c k l₀ ∧
      w.Follows c (k + 1) l₀ [] [] := by
  obtain ⟨hengine, hstore, hprogress⟩ := engine_launch hprepare
  have hlatest := hholds.latestHeight_eq
  have hfollows := World.follows_resumed c (runSettings f.config) f'.engine.standing
    f.baseToken.cancelled f.config.maxChunkSize_pos f.config.maxBufferedChunks_pos
    f.config.params.maxSlots hhead
  have hresume : Height.resume f'.engine.standing.store.latestHeight = k + 1 := by
    have hsame : f'.engine.standing.store.latestHeight = f.store.latestHeight :=
      congrArg Store.latestHeight hstore
    rw [hsame, hlatest]
    exact resume_reached hk
  rw [hresume] at hfollows
  refine ⟨_, f'.engine.standing.ledger, hengine, ⟨?_, ?_⟩, hfollows⟩
  · have hsame : f'.engine.standing.ledger.store = f.store := hstore
    rw [hsame]
    exact hholds
  · have hsame : f'.engine.standing.ledger.progress = f'.engine.standing.progress := rfl
    rw [hsame, hprogress, hlatest]
    rfl

/-- Where a run begins. -/
structure Begins (first : ℕ) (w : World) : Prop where
  /-- The height that is committed first. -/
  sequencer : w.sequencer.nextCommit = first
  /-- The chunk that is due first. -/
  buffer : w.shared.buffer.nextCommit = first
  /-- The first range that is fetched. -/
  planner : w.shared.planner.cursor = first

theorem next_prev_resume (latest : Option ℕ) :
    Height.next (Height.prev (Height.resume latest)) = Height.resume latest := by
  have htop : 1 ≤ Height.top := by decide
  unfold Height.resume Height.prev Height.next Height.add
  omega

/-- Wherever a run begins, it begins there with everything. -/
theorem begins_resume (hlaunch : (f.launch latest head).engine = .running w) :
    Begins (Height.resume latest) w := by
  have hcursor := next_prev_resume latest
  cases hlaunch
  cases head with
  | error e => exact ⟨rfl, rfl, hcursor⟩
  | ok n => exact ⟨rfl, rfl, (Planner.sameRanges_observe _ n).2.1.trans hcursor⟩

theorem begins_launch (hk : k < Height.top) (hholds : f.store.Holds c k)
    (hprepare : f.prepare (.ok f.store.latestHeight) = .ok (latest, f'))
    (hlaunch : (f'.launch latest head).engine = .running w) : Begins (k + 1) w := by
  obtain ⟨rfl, -⟩ := prepare_eq_ok hprepare
  have hresume : Height.resume f.store.latestHeight = k + 1 := by
    rw [hholds.latestHeight_eq]
    exact resume_reached hk
  exact hresume ▸ begins_resume hlaunch

/-! ### Every fetcher that comes about -/

theorem Consistent.move {m : Move} {w' : World} (h : Consistent c f)
    (hrunning : f.engine = .running w) (hallows : w.Allows c m) (hmove : w.move m = some w') :
    Consistent c { f with engine := .running w' } := by
  obtain ⟨k, l₀, fs, trace, hl₀, hfollows⟩ := (consistent_running hrunning).mp h
  obtain ⟨later, hnext⟩ := hfollows.move hallows hmove
  exact (consistent_running rfl).mpr ⟨k, l₀, fs ++ later, _, hl₀, hnext⟩

/-- **Every fetcher that comes about keeps the invariant.** -/
theorem Reachable.consistent (hc : c.Numbered) (hf : Reachable c f) : Consistent c f := by
  have htop : 0 < Height.top := by decide
  induction hf with
  | make => exact ⟨0, htop, Store.holds_empty c⟩
  -- all that is left of an aborted process is its store
  | abort hf ih => exact ih.holds hc
  | prepare hf hprepare ih =>
    obtain ⟨-, standing, planner, hengine, rfl⟩ := prepare_eq_ok hprepare
    exact (consistent_idle hengine).mp ih
  | launch hf hprepare hhead ih =>
    obtain ⟨k, hk, hholds⟩ := ih.holds hc
    obtain ⟨w, l₀, hengine, hl₀, hfollows⟩ := follows_launch hk hholds hprepare hhead
    exact (consistent_running hengine).mpr ⟨k, l₀, [], [], hl₀, hfollows⟩
  | move hf hrunning hallows hmove ih => exact ih.move hrunning hallows hmove
  | @cancelRoot f hf ih =>
    unfold Fetcher.cancelRoot
    rcases hengine : f.engine with ⟨standing, planner⟩ | w
    · exact (consistent_idle hengine).mp ih
    · exact ih.move (m := .cancelRoot) hengine trivial rfl
  | @requestStop f hf ih =>
    unfold Fetcher.requestStop
    rcases hengine : f.engine with ⟨standing, planner⟩ | w
    · exact ih
    · exact ih.move (m := .cancelRun) hengine trivial rfl
  | @finishStop f hf ih =>
    unfold Fetcher.finishStop
    rcases hengine : f.engine with ⟨standing, planner⟩ | w
    · exact ih
    · obtain ⟨k, hk, hreaches⟩ := ih.reaches hc hengine
      exact ⟨k, hk, hreaches.holds⟩
  | replaceToken hf ih => exact ih

theorem Reachable.run {w' : World} {trace : List Effect} (hf : Reachable c f)
    (hrunning : f.engine = .running w) (hrun : World.Run c w trace w') :
    Reachable c { f with engine := .running w' } := by
  induction hrun with
  | start => exact hrunning ▸ hf
  | @move trace v v' m hrun hallows hmove ih =>
    exact .move (f := { f with engine := .running v }) ih rfl hallows hmove

/-! ### A run that commits the first height -/

/-- A chain on which every block has the same number of transactions, all of them empty. -/
def plainChain (count : ℕ) : Chain where
  block h := Store.plainBlock h count
  results h := ⟨h, List.replicate count .null⟩

/-- A height of it. -/
def plainHeight (h count : ℕ) : FetchedBlock :=
  ⟨Store.plainBlock h count, FetchedBlock.pair h 0 (List.replicate count [])
    (List.replicate count .null)⟩

theorem assemble_plain (h count : ℕ) :
    FetchedBlock.assemble ((plainChain count).block h) ((plainChain count).results h)
      = .ok (plainHeight h count) := by
  have hheight : ((plainChain count).results h).height = ((plainChain count).block h).height := rfl
  have hlength : ((plainChain count).results h).deliverTx.length
      = ((plainChain count).block h).txs.length := by
    unfold plainChain Store.plainBlock
    rw [List.length_replicate, List.length_replicate]
  unfold FetchedBlock.assemble
  rw [if_neg (not_not_intro hheight), if_neg (not_not_intro hlength)]
  rfl

/-- A configuration with one worker. -/
def oneWorker : Config :=
  ⟨⟨"http://node", "db", 1, 2, 1, 1, 1, 1, 1, ⟨1, 1, 1⟩, ⟨1, 1, 1⟩⟩, by decide +kernel⟩

/-- A fetcher with it that was not started yet. -/
def oneWorkerIdle : Fetcher := make oneWorker (.fresh 0) .empty (.start 1 Nat.one_pos)

/-- Its first run, when it was told of a head. -/
def oneWorkerRun (n : ℕ) : World :=
  .launch (runSettings oneWorker)
    (Refresher.heard (oneWorkerIdle.sharedAtStart none) (.ok n)) (Height.resume none) 1

section OneWorker

variable {n : ℕ} {trace : List Effect} (hhead : n < Height.top)
  (hrun : World.Run c (oneWorkerRun n) trace w)
include hhead hrun

theorem reachable_oneWorker :
    Reachable c { oneWorkerIdle.launch none (.ok n) with engine := .running w } := by
  have hlaunched : Reachable c (oneWorkerIdle.launch none (.ok n)) :=
    .launch .make rfl (Refresher.bounded_ok hhead)
  exact hlaunched.run rfl hrun

/-- What it does makes its ledger. -/
theorem ledger_oneWorker :
    w.shared.ledger = oneWorkerIdle.engine.standing.ledger.after trace := by
  obtain ⟨fs, hfollows⟩ := hrun.follows (World.follows_resumed c (runSettings oneWorker)
    oneWorkerIdle.engine.standing false oneWorker.maxChunkSize_pos
    oneWorker.maxBufferedChunks_pos 1 (Refresher.bounded_ok hhead))
  exact hfollows.ledger_eq

end OneWorker

/-- **However many transactions its blocks have, the first height of the chain may be
committed.** -/
theorem exists_committed (count : ℕ) :
    ∃ f, Reachable (plainChain count) f ∧ f.isRunning ∧
      f.store = Store.empty.write (plainHeight 1 count).writes ∧ f.lastCommitted = some 1 := by
  let c : Chain := plainChain count
  let f : FetchedBlock := plainHeight 1 count
  let job : FetchJob := .start oneWorker.fetchRetry ⟨1, 1, le_rfl⟩
  -- the only worker claims the height and asks for its block
  let w₀ : World := oneWorkerRun 1
  let w₁ : World := { w₀ with
    shared := w₀.shared.claim.2, workers := [.awaitingResults job (c.block 1)] }
  have h₁ : World.Run c w₀ [] w₁ :=
    World.Run.start.replay (rfl : w₀.replay [.worker 0, .worker 0] = some ([], w₁))
  -- the outcomes fit it, which is no matter of computation
  let w₂ : World := { w₁ with workers := [Worker.fetched (job.add f)] }
  have hmove : w₁.move (.worker 0 (.results (.ok (c.results 1)))) = some w₂ := by
    have hphase : w₁.workers[0]? = some (.awaitingResults job (c.block 1)) := rfl
    have hassemble : FetchedBlock.assemble (c.block 1) (c.results 1) = .ok f :=
      assemble_plain 1 count
    simp only [World.move, World.stepWorker, hphase, Worker.step, Worker.resultsArrived, hassemble]
    rfl
  have h₂ : World.Run c w₀ [] w₂ := by
    refine h₁.move (m := .worker 0 (.results (.ok (c.results 1)))) (fun phase hphase => ?_) hmove
    cases hphase
    rfl
  -- the chunk goes through the buffer, and the sequencer begins with the height
  obtain ⟨w₃, hreplay, job', hcurrent, hphase⟩ : ∃ w₃,
      w₂.replay (c := c) [.worker 0, .worker 0, .sequencer, .sequencer] = some ([], w₃) ∧
        ∃ job', job'.current = f ∧ w₃.sequencer.phase = .savingBlock job' :=
    ⟨_, rfl, _, rfl, rfl⟩
  obtain ⟨w, hrun⟩ := (h₂.replay hreplay).commits (by rw [hphase]; rfl)
  rw [hcurrent] at hrun
  have hhead : 1 < Height.top := by decide
  have hledger : w.shared.ledger = oneWorkerIdle.engine.standing.ledger.after
      (stored f.writes ++ f.closing) := ledger_oneWorker hhead hrun
  rw [Ledger.after_append, Ledger.after_stored, Ledger.after_closing] at hledger
  exact ⟨_, reachable_oneWorker hhead hrun, rfl, congrArg Ledger.store hledger,
    congrArg (Progress.lastCommitted ∘ Ledger.progress) hledger⟩

/-! ### No height is skipped -/

/-- **No height is skipped, and none is left partial below the height at which the next
run begins.**  However a fetcher has come about, its store holds the chain up to some
height and at most a part of the next one, says so, and agrees with the progress of a
run; and every start that can read the latest height begins at the next one. -/
theorem restart_consistent (hc : c.Numbered) (hf : Reachable c f) :
    ∃ k, f.store.Holds c k ∧ f.store.latestHeight = (if k = 0 then none else some k) ∧
      (f.isRunning → f.lastCommitted = f.store.latestHeight) ∧
      ∀ latest f' head w, f.prepare (.ok f.store.latestHeight) = .ok (latest, f') →
        (f'.launch latest head).engine = .running w → Begins (k + 1) w := by
  have hconsistent := hf.consistent hc
  obtain ⟨k, hk, hholds⟩ := hconsistent.holds hc
  refine ⟨k, hholds, hholds.latestHeight_eq, ?_, ?_⟩
  · intro hrunning
    unfold isRunning at hrunning
    unfold lastCommitted store
    rcases hengine : f.engine with ⟨standing, planner⟩ | w
    · rw [hengine] at hrunning
      cases hrunning
    · obtain ⟨j, hj, hreaches⟩ := hconsistent.reaches hc hengine
      exact hreaches.lastCommitted_eq hj
  · intro latest f' head w hprepare hlaunch
    exact begins_launch hk hholds hprepare hlaunch

/-- The first height is committed, and the second one is begun when the process is
aborted: its block is written and its transaction is not. -/
theorem restart_consistent_aborted :
    let c : Chain := ⟨fun h => ⟨h, "", "", "", [[]], .null⟩, fun h => ⟨h, [.null]⟩⟩
    c.Numbered ∧ ∃ f, Reachable c f ∧ f.store.heights = [1, 2] ∧ f.store.txCount = 1 ∧
      ∃ k, f.store.Holds c k ∧ f.store.latestHeight = (if k = 0 then none else some k) ∧
        (f.isRunning → f.lastCommitted = f.store.latestHeight) ∧
        ∀ latest f' head w, f.prepare (.ok f.store.latestHeight) = .ok (latest, f') →
          (f'.launch latest head).engine = .running w → Begins (k + 1) w := by
  intro c
  let cues : List (World.Cue c) := [.worker 0, .worker 0, .worker 0, .worker 0, .worker 0,
    .worker 0, .worker 0, .sequencer, .sequencer, .sequencer, .sequencer, .sequencer,
    .sequencerFails]
  have hreplay : ((oneWorkerRun 2).replay cues).map (fun out =>
      (out.2.shared.store.heights, out.2.shared.store.txCount)) = some ([1, 2], 1) := by
    decide +kernel
  obtain ⟨⟨trace, w⟩, hout, hstored⟩ := Option.map_eq_some_iff.mp hreplay
  obtain ⟨hheights, hcount⟩ := Prod.mk.inj hstored
  have hrun : World.Run c (oneWorkerRun 2) trace w := World.Run.start.replay hout
  have hended := reachable_oneWorker (by decide) hrun
  have hc : c.Numbered := by
    intro h
    show 1 ≤ 0x100000000
    decide
  let aborted : Fetcher := make oneWorker (.fresh 1) w.shared.store (.start 1 Nat.one_pos)
  have haborted : Reachable c aborted := .abort hended
  exact ⟨hc, aborted, haborted, hheights, hcount, restart_consistent hc haborted⟩

/-- The first height has one transaction more than there are numbers for them.  Its last
transaction is written over the first one: the height is committed, and told to everyone, and
yet the store does not report it. -/
theorem restart_inconsistent_long :
    let c : Chain := plainChain 0x100000001
    ∃ f, Reachable c f ∧ f.isRunning ∧ f.lastCommitted = some 1 ∧ f.store.latestHeight = none ∧
      ¬ ∃ k, f.store.Holds c k ∧ f.store.latestHeight = (if k = 0 then none else some k) ∧
        (f.isRunning → f.lastCommitted = f.store.latestHeight) ∧
        ∀ latest f' head w, f.prepare (.ok f.store.latestHeight) = .ok (latest, f') →
          (f'.launch latest head).engine = .running w → Begins (k + 1) w := by
  intro c
  obtain ⟨f, hf, hrunning, hstore, hcommitted⟩ := exists_committed 0x100000001
  have hlong : 0x100000000 < (plainHeight 1 0x100000001).block.txs.length := by
    unfold plainHeight Store.plainBlock
    rw [List.length_replicate]
    decide
  have hassembled : (plainHeight 1 0x100000001).Assembled := ⟨_, _, assemble_plain 1 0x100000001⟩
  have hlatest : f.store.latestHeight = none := by
    rw [hstore]
    exact Store.latestHeight_writes_eq_none hassembled hlong
  refine ⟨f, hf, hrunning, hcommitted, hlatest, ?_⟩
  rintro ⟨k, -, -, hsame, -⟩
  have heq := hsame hrunning
  rw [hcommitted, hlatest] at heq
  cases heq

end Fetcher
end BlockIngest
