import BlockIngest.Proofs.Fetch.Tally
import BlockIngest.Proofs.Pipeline.Outward
import BlockIngest.Proofs.Pipeline.Sole

/-!
# The counters are a ledger

The counters are bumped wherever something happens that they count, and each such place makes its
own exception.  Taken together they say what has happened since the run began, whatever the order of
the moves, at any time, and up to wrapping round.

One exception is too many.  A range that is given up is counted if the planner knows it for a
claimed one.  Below the top every range that a worker holds is; but the range of the top may be
handed out twice, and then the worker that gives it up after the other one is not counted.

## Main definitions

* `World.failing`, `World.entering` — the attempt that fails in a move, and the chunk that is let
  in.
* `World.Tallies` — the law.

## Main results

* `World.fetchCounts_move`, `World.commitCounts_move` — **what one move counts.**
* `World.tallies_of_run` — **the counters say what has happened.**
* `World.tallies_of_run_top` — at the top they miss something.
-/

namespace BlockIngest
namespace World

variable {w w' v v' : World} {m : Move} {ms ns : List Move}

/-! ### Along moves -/

section Along

variable {α : Type} {g : World → Move → List α}

theorem along_append (hrun : w.after ms = some v) :
    w.along g (ms ++ ns) = w.along g ms ++ v.along g ns := by
  induction ms generalizing w with
  | nil =>
    cases hrun
    rfl
  | cons m ms ih =>
    obtain ⟨u, hu, hlater⟩ := Option.bind_eq_some_iff.mp hrun
    rw [List.cons_append, along_cons g hu, along_cons g hu, ih hlater, List.append_assoc]

/-- What is read off one more move. -/
theorem along_concat (hrun : w.after ms = some v) :
    w.along g (ms ++ [m]) = w.along g ms ++ g v m := by
  have hlast : v.along g [m] = g v m := by
    unfold along
    cases v.move m <;> exact List.append_nil _
  rw [along_append hrun, hlast]

/-- What is read off moves is read off one of them, in a state that the run comes to. -/
theorem exists_of_mem_along {a : α} (h : a ∈ w.along g ms) :
    ∃ ns m ns' v, ms = ns ++ m :: ns' ∧ w.after ns = some v ∧ a ∈ g v m := by
  induction ms generalizing w with
  | nil => cases h
  | cons m ms ih =>
    rcases List.mem_append.mp h with hnow | hlater
    · exact ⟨[], m, ms, w, rfl, rfl, hnow⟩
    · rcases hmove : w.move m with _ | u
      · rw [hmove] at hlater
        cases hlater
      · rw [hmove] at hlater
        obtain ⟨ns, m', ns', v, rfl, hv, ha⟩ := ih hlater
        refine ⟨m :: ns, m', ns', v, rfl, ?_, ha⟩
        exact Option.bind_eq_some_iff.mpr ⟨u, hmove, hv⟩

/-- **What one more move keeps, in a state that the run comes to, is kept by all of them.** -/
theorem concat_induction {P : List Move → World → Prop} (hrun : w.after ms = some w')
    (hstart : P [] w)
    (hmove : ∀ ns v m v', w.after ns = some v → P ns v → v.move m = some v' → P (ns ++ [m]) v') :
    P ms w' := by
  induction ms using List.reverseRecOn generalizing w' with
  | nil =>
    cases hrun
    exact hstart
  | append_singleton ns m ih =>
    rw [after_append] at hrun
    obtain ⟨v, hv, hlast⟩ := Option.bind_eq_some_iff.mp hrun
    have hv' : v.move m = some w' := by
      obtain ⟨u, hu, hend⟩ := Option.bind_eq_some_iff.mp hlast
      cases hend
      exact hu
    exact hmove ns v m w' hv (ih hv) hv'

end Along

/-! ### What a move counts -/

/-- The attempt that fails in a move. -/
def failing (w : World) : Move → List FailedAttempt
  | .worker id signal => ((w.workers[id]?).bind (Worker.failed? · signal)).toList
  | _ => []

/-- The chunk that the buffer lets in. -/
def entering (w : World) : Move → List CompletedChunk
  | .worker id signal => ((w.workers[id]?).bind (Worker.entering? w.shared.buffer · signal)).toList
  | _ => []

/-- Supervision leaves the counters alone. -/
theorem telemetry_attended (settings : RunSettings) (id : ℕ) (next : WorkerPhase) (s : Shared) :
    (attended settings id next s).telemetry = s.telemetry := by
  unfold attended workerEnded
  split
  · split
    · split <;> rfl
    · rfl
  · rfl

theorem telemetry_closed (settings : RunSettings) (q : Sequencer) (s : Shared) :
    (closed settings q s).2.telemetry = s.telemetry := by
  unfold closed sequencerEnded
  split
  · split
    · rfl
    · split <;> rfl
  · rfl

/-- A move counts the attempt that fails in it and the chunk that is let in. -/
theorem fetchCounts_move {low : ℕ} {x : History} (h : x.Sole low)
    (hmove : x.world.move m = some w') :
    Worker.Counts x.world.shared.telemetry (x.world.entering m) (x.world.failing m)
      w'.shared.telemetry := by
  cases move_cases hmove with
  | @worker id phase next signal s hphase hstep =>
    have hid := h.kept.held.of_step hphase hstep
    have hcounts := Worker.counts_step hstep
      (fun d hd => h.custody.admission_ne_stale h.kept.custody (by rw [hid, hd]; rfl))
      (fun r hr htop => h.custody.claimed id r htop (by rw [hid, hr]))
    simp only [entering, failing, hphase, Option.bind_some]
    rw [telemetry_attended]
    exact hcounts
  | sequencer hstep =>
    refine .of_same ?_
    rw [telemetry_closed]
    exact Sequencer.fetchSide_step hstep
  | @heard answer => cases answer <;> exact .of_same rfl
  | refreshed | cancelRun | cancelRoot => exact .of_same rfl

section Commit

variable {p : Retry.Policy} {fs : List FetchedBlock} {t : List Effect}

/-- Whether the counters of the sequencer count the effects of a move, and it stands with them. -/
def CommitCounts (p : Retry.Policy) (t : List Effect) (w : World) (m : Move) (w' : World) : Prop :=
  Sequencer.Counts p (t.foldl Effect.strikes 0) w.shared.telemetry (w.effects m)
      w'.shared.telemetry ∧
    ∃ fs, w'.sequencer.Tracked p fs (t ++ w.effects m)

/-- A move of another task has no effects. -/
theorem commitCounts_of_quiet (h : w.sequencer.Tracked p fs t) (hm : w.effects m = [])
    (hsame : w'.sequencer = w.sequencer)
    (hside : w'.shared.telemetry.commitSide = w.shared.telemetry.commitSide) :
    CommitCounts p t w m w' := by
  unfold CommitCounts
  rw [hm, hsame, List.append_nil]
  exact ⟨.of_same hside, fs, h⟩

/-- A move counts its effects. -/
theorem commitCounts_move (h : w.sequencer.Tracked p fs t) (hmove : w.move m = some w') :
    CommitCounts p t w m w' := by
  cases m with
  | sequencer signal =>
    obtain ⟨q, s, hstep, rfl⟩ := sequencer_of_move hmove
    have hnext := h.step hstep
    constructor
    · rw [telemetry_closed]
      exact Sequencer.counts_step h (Sequencer.step_cases hstep)
    · -- what it returns once it has ended does not matter
      refine ⟨fs ++ (w.sequencer.taken w.shared signal).flatMap CompletedChunk.blocks, ?_⟩
      show Sequencer.Tracked p _ _ (closed w.settings q s).1
      unfold closed
      split
      · next result hphase => exact hnext.goTo_exited hphase
      · exact hnext
  | worker id signal =>
    cases move_cases hmove with
    | worker hphase hstep =>
      refine commitCounts_of_quiet h rfl rfl ?_
      rw [telemetry_attended]
      exact Worker.commitSide_step hstep
  | refresher signal =>
    cases move_cases hmove with
    | @heard answer => cases answer <;> exact commitCounts_of_quiet h rfl rfl rfl
    | refreshed => exact commitCounts_of_quiet h rfl rfl rfl
  | cancelRun | cancelRoot =>
    cases hmove
    exact commitCounts_of_quiet h rfl rfl rfl

end Commit

/-! ### The law -/

/-- **What the counters say** of a run that has been moved since it began.  Each of them has wrapped
round at a word of 64 bits. -/
structure Tallies (w₀ : World) (ms : List Move) (w : World) : Prop where
  /-- The committed heights. -/
  heights : w.shared.telemetry.committedHeights
    ≡ w₀.shared.telemetry.committedHeights + (marks (w₀.trace ms)).length [MOD 2 ^ 64]
  /-- What is committed is committed with its height. -/
  commits_eq : (commits (w₀.trace ms)).map (fun c => c.1.height) = marks (w₀.trace ms)
  /-- The transactions that are committed with them. -/
  txs : w.shared.telemetry.committedTxs ≡ w₀.shared.telemetry.committedTxs
    + ((commits (w₀.trace ms)).flatMap Prod.snd).length [MOD 2 ^ 64]
  /-- The events are as many as both. -/
  events_eq : (published (w₀.trace ms)).length = (marks (w₀.trace ms)).length
    + ((commits (w₀.trace ms)).flatMap Prod.snd).length
  /-- The events that are published. -/
  events : w.shared.telemetry.eventsPublished
    ≡ w₀.shared.telemetry.eventsPublished + (published (w₀.trace ms)).length [MOD 2 ^ 64]
  /-- The attempts at a height that have failed, but for the last one that is allowed. -/
  retries : w.shared.telemetry.storageRetries ≡ w₀.shared.telemetry.storageRetries
    + (strikes (w₀.trace ms)).countP (fun n => w₀.settings.storage.Permits (n + 1)) [MOD 2 ^ 64]
  /-- The chunks that the buffer has let in. -/
  chunks : w.shared.telemetry.fetchedChunks
    ≡ w₀.shared.telemetry.fetchedChunks + (w₀.along entering ms).length [MOD 2 ^ 64]
  /-- The attempts at a range that have failed, unless the node was behind. -/
  errors : w.shared.telemetry.fetchErrors ≡ w₀.shared.telemetry.fetchErrors
    + (w₀.along failing ms).countP (fun x => !x.isBehind) [MOD 2 ^ 64]
  /-- The timeouts among them. -/
  timeouts : w.shared.telemetry.fetchTimeouts ≡ w₀.shared.telemetry.fetchTimeouts
    + (w₀.along failing ms).countP FailedAttempt.isTimeout [MOD 2 ^ 64]
  /-- The fetches that have ended with a failed attempt, but for some at the top. -/
  released_le : ∃ n, (w₀.along failing ms).countP (fun x => x.isEnd && x.isBelowTop) ≤ n ∧
    n ≤ (w₀.along failing ms).countP FailedAttempt.isEnd ∧
    w.shared.telemetry.releasedChunks ≡ w₀.shared.telemetry.releasedChunks + n [MOD 2 ^ 64]
  /-- All of them, if none was about a range that begins at the top. -/
  released : (∀ x ∈ w₀.along failing ms, x.isBelowTop) → w.shared.telemetry.releasedChunks
    ≡ w₀.shared.telemetry.releasedChunks
      + (w₀.along failing ms).countP FailedAttempt.isEnd [MOD 2 ^ 64]

/-- What the counters of both sides say is the law. -/
theorem tallies_of_counts {w₀ : World} {p : Retry.Policy} {fs : List FetchedBlock}
    (hp : w₀.settings.storage = p) (htracked : w.sequencer.Tracked p fs (w₀.trace ms))
    (hcommit : Sequencer.Counts p 0 w₀.shared.telemetry (w₀.trace ms) w.shared.telemetry)
    (hfetch : Worker.Counts w₀.shared.telemetry (w₀.along entering ms) (w₀.along failing ms)
      w.shared.telemetry) : w₀.Tallies ms w where
  heights := hcommit.heights
  commits_eq := by
    obtain ⟨done, rest, -, hmarks, -, hcommits⟩ := htracked.tells
    rw [hcommits, hmarks, List.map_map]
    rfl
  txs := by
    have hboth := hcommit.txs
    rw [htracked.length_published, Nat.add_left_comm, Nat.add_comm] at hboth
    exact Nat.ModEq.add_left_cancel' _ hboth
  events_eq := htracked.length_published
  events := hcommit.events
  retries := hp ▸ hcommit.retries
  chunks := hfetch.chunks
  errors := hfetch.errors
  timeouts := hfetch.timeouts
  released_le := hfetch.released
  released := by
    intro hbelow
    obtain ⟨n, hlow, hhigh, hn⟩ := hfetch.released
    have hall : (w₀.along failing ms).countP (fun x => x.isEnd && x.isBelowTop)
        = (w₀.along failing ms).countP FailedAttempt.isEnd := by
      refine List.countP_congr fun x hx => ?_
      rw [hbelow x hx, Bool.and_true]
    rw [hall] at hlow
    rwa [← Nat.le_antisymm hhigh hlow]

section Run

variable {settings : RunSettings} {standing : Standing} {root : Bool} {size capacity : ℕ}
  {hsize : 0 < size} {hcapacity : 0 < capacity} {slots : ℕ} {head : Except Failure ℕ}
  {moves : List Move}

/-- As long as heads stay below the top, no range is fetched that begins there. -/
theorem isBelowTop_of_bounded (hhead : Refresher.Bounded head) (hmoves : ∀ m ∈ moves, m.Bounded)
    {x : FailedAttempt}
    (hx : x ∈ (resumed settings standing root hsize hcapacity slots head).along failing moves) :
    x.isBelowTop := by
  obtain ⟨ns, m, ns', v, rfl, hv, hfails⟩ := exists_of_mem_along hx
  have hworld := History.world_after
    (.resumed settings standing root hsize hcapacity slots head) ns
  obtain ⟨y, hy, rfl⟩ := Option.map_eq_some_iff.mp (hworld.trans hv)
  have hsound := History.sound_after hhead (fun m hm => hmoves m (List.mem_append_left _ hm)) hy
  cases m with
  | worker id signal =>
    obtain ⟨phase, hphase, hfailed⟩ := Option.bind_eq_some_iff.mp (Option.mem_toList.mp hfails)
    have hjob := (Worker.failed?_eq_some_iff.mp hfailed).job?_eq
    have hid := hsound.holding_eq id phase hphase (by rintro text rfl; cases hjob)
    rw [WorkerPhase.held?_of_job? hjob] at hid
    have hlast := (hsound.custody.tracked.bounds (hsound.custody.issued_of_held hid)).2
    have htop := hsound.custody.tracked.cursor_le_top
    have hordered := x.job.range.ordered
    exact decide_eq_true (by omega)
  | sequencer | refresher | cancelRun | cancelRoot => cases hfails

/-- **The counters say what has happened.**  Every run above what is stored, with any number of
workers, however it is moved, whatever the node and the store answer and whenever it is cancelled,
obeys `Tallies` at any time; and as long as heads stay below the top, no counter misses
anything. -/
theorem tallies_of_run
    (hrun : (resumed settings standing root hsize hcapacity slots head).after moves = some w) :
    (resumed settings standing root hsize hcapacity slots head).Tallies moves w ∧
      (Refresher.Bounded head → (∀ m ∈ moves, m.Bounded) →
        ∀ x ∈ (resumed settings standing root hsize hcapacity slots head).along failing moves,
          x.isBelowTop) := by
  let w₀ := resumed settings standing root hsize hcapacity slots head
  have hcounts : (∃ fs, w.sequencer.Tracked settings.storage fs (w₀.trace moves)) ∧
      Sequencer.Counts settings.storage 0 w₀.shared.telemetry (w₀.trace moves)
        w.shared.telemetry ∧
      Worker.Counts w₀.shared.telemetry (w₀.along entering moves) (w₀.along failing moves)
        w.shared.telemetry := by
    refine concat_induction (P := fun ns v =>
      (∃ fs, v.sequencer.Tracked settings.storage fs (w₀.trace ns)) ∧
        Sequencer.Counts settings.storage 0 w₀.shared.telemetry (w₀.trace ns) v.shared.telemetry ∧
        Worker.Counts w₀.shared.telemetry (w₀.along entering ns) (w₀.along failing ns)
          v.shared.telemetry) hrun ?_ ?_
    · exact ⟨⟨[], Sequencer.tracked_start _ _⟩, .of_same rfl, .of_same rfl⟩
    · intro ns v m v' hv ⟨⟨fs, htracked⟩, hcommit, hfetch⟩ hmove
      have htrace : w₀.trace (ns ++ [m]) = w₀.trace ns ++ v.effects m := along_concat hv
      obtain ⟨hcommits, htracked'⟩ := commitCounts_move htracked hmove
      -- the history that the run has had so far
      have hworld := History.world_after
        (.resumed settings standing root hsize hcapacity slots head) ns
      obtain ⟨x, hx, rfl⟩ := Option.map_eq_some_iff.mp (hworld.trans hv)
      have hfetches := fetchCounts_move (History.sole_after hx) hmove
      rw [htrace, along_concat hv, along_concat hv]
      exact ⟨htracked', hcommit.append hcommits, hfetch.append hfetches⟩
  obtain ⟨⟨fs, htracked⟩, hcommit, hfetch⟩ := hcounts
  exact ⟨tallies_of_counts rfl htracked hcommit hfetch,
    fun hhead hmoves x hx => isBelowTop_of_bounded hhead hmoves hx⟩

end Run

/-- The first attempt at the first height comes too late, and so does the one at the second, which
the node does not have yet.  Then the first height is fetched, and stored at the second attempt.
One counter had been full before. -/
theorem tallies_of_run_retried :
    let settings : RunSettings := ⟨⟨⟨1, 1, some 2⟩, 1⟩, ⟨1, 1, some 2⟩, true⟩
    let full : Telemetry := { storageRetries := 2 ^ 64 - 1 }
    let standing : Standing := ⟨.empty, .start 1 Nat.one_pos, .ofHeight? none, full⟩
    let moves : List Move := [.worker 0 .turn, .worker 1 .turn,
      .worker 0 (.block (.error (.ofRpc (.timeout "block")))),
      .worker 1 (.block (.error (.ofRpc (.heightNotFound 2)))), .worker 0 .elapsed,
      .worker 0 (.block (.ok ⟨1, "", "", "", [[]], .null⟩)),
      .worker 0 (.results (.ok ⟨1, [.null]⟩)), .worker 0 .turn, .worker 0 .turn,
      .sequencer .turn, .sequencer .turn, .sequencer (.written (.error (.ofText "disk full"))),
      .sequencer .elapsed, .sequencer (.written (.ok ())), .sequencer (.written (.ok ()))]
    let run := resumed settings standing false Nat.one_pos Nat.one_pos 2 (.ok 9)
    Refresher.Bounded (.ok 9) ∧ (∀ m ∈ moves, m.Bounded) ∧ ∃ w, run.after moves = some w ∧
      run.Tallies moves w ∧ (∀ x ∈ run.along failing moves, x.isBelowTop) ∧
      w.shared.telemetry = ⟨1, 1, 1, 1, 1, 1, 0, 2⟩ := by
  intro settings full standing moves run
  have hhead : Refresher.Bounded (.ok 9) := Refresher.bounded_ok (by decide)
  have hmoves : ∀ m ∈ moves, m.Bounded := by
    have hlate : Failure.Bounded (.ofRpc (.timeout "block")) := by
      intro h hh
      cases hh
    have hmissing : Failure.Bounded (.ofRpc (.heightNotFound 2)) := by
      intro h hh
      cases hh
      decide
    simp [moves, Move.Bounded, hlate, hmissing]
  have hcounted : (run.after moves).map (fun w => w.shared.telemetry)
      = some ⟨1, 1, 1, 1, 1, 1, 0, 2⟩ := by
    decide +kernel
  obtain ⟨w, hw, htelemetry⟩ := Option.map_eq_some_iff.mp hcounted
  obtain ⟨htallies, hbelow⟩ := tallies_of_run hw
  exact ⟨hhead, hmoves, w, hw, htallies, hbelow hhead hmoves, htelemetry⟩

/-- Two workers fetch the range of the top.  The node does not have it any more, so the first one
gives it up; the attempt of the second one fails, and that is the last.  Both fetches have ended,
and one of them is counted. -/
theorem tallies_of_run_top :
    let settings : RunSettings := ⟨⟨⟨1, 1, some 1⟩, 1⟩, ⟨1, 1, some 1⟩, true⟩
    let below : Block := ⟨Height.top - 1, "", "", "", [], .null⟩
    let standing : Standing := ⟨Store.empty.putBlock below, .start 1 Nat.one_pos,
      .ofHeight? (some below.height), {}⟩
    let moves : List Move := [.worker 0 .turn, .worker 1 .turn,
      .worker 0 (.block (.error (.ofRpc (.heightNotFound Height.top)))),
      .worker 1 (.block (.error (.ofText "no answer")))]
    let run := resumed settings standing false Nat.one_pos Nat.one_pos 2 (.ok Height.top)
    ∃ w, run.after moves = some w ∧
      (run.along failing moves).map (fun x => (x.job.range.first, x.isEnd))
        = [(Height.top, true), (Height.top, true)] ∧
      w.shared.telemetry.releasedChunks = 1 ∧
      ¬ w.shared.telemetry.releasedChunks ≡ run.shared.telemetry.releasedChunks
        + (run.along failing moves).countP FailedAttempt.isEnd [MOD 2 ^ 64] := by
  intro settings below standing moves run
  have hcounted : (run.after moves).map (fun w => w.shared.telemetry.releasedChunks)
      = some 1 := by
    decide +kernel
  have hended : (run.along failing moves).map (fun x => (x.job.range.first, x.isEnd))
      = [(Height.top, true), (Height.top, true)] := by
    decide +kernel
  obtain ⟨w, hw, hreleased⟩ := Option.map_eq_some_iff.mp hcounted
  refine ⟨w, hw, hended, hreleased, ?_⟩
  rw [hreleased]
  decide +kernel

end World
end BlockIngest
