import BlockIngest.Proofs.Commit.Trace
import BlockIngest.Proofs.Pipeline.Run

/-!
# The pipeline refines a sequential loop

A run with many workers, chunks and a buffer commits exactly what a loop commits
that fetches one height after the other.  How many workers there are, how long
chunks are, how many are buffered, which calls fail and in which order tasks go on
decides how far the run comes, but not what it commits on its way.

## Main definitions

* `Chain.Indexed` — what is committed is what the loop commits.

## Main results

* `World.indexed_of_run` — **whatever a run commits is what the loop commits.**
-/

namespace BlockIngest

/-- A trace commits what the sequential loop over a chain commits from a height on. -/
structure Chain.Indexed (c : Chain) (first : ℕ) (trace : List Effect) : Prop where
  /-- The heights that are committed follow one another from the first one on. -/
  marks_eq : marks trace = List.range' first (marks trace).length
  /-- The loop over as many heights commits the same blocks and transactions, and
  publishes the same events. -/
  loop_eq : ∃ loop, c.index first (marks trace).length = .ok loop ∧
    commits trace = commits loop ∧ published trace = published loop
  /-- So does the loop over fewer heights, up to where it comes. -/
  upto : ∀ n ≤ (marks trace).length, ∃ loop, c.index first n = .ok loop ∧
    (commits trace).take n = commits loop ∧ published loop <+: published trace

namespace World

variable {c : Chain} {first : ℕ} {l₀ : Ledger} {fs : List FetchedBlock} {trace : List Effect}
  {w : World}

/-- A run that follows a chain commits what the loop commits. -/
theorem Follows.indexed (h : w.Follows c first l₀ fs trace) : c.Indexed first trace := by
  -- the heights that were fed split into those that are committed and the others
  obtain ⟨done, rest, rfl, hmarks, hpublished, hcommits⟩ := h.tracked.tells
  have hlength : (marks trace).length = done.length := by rw [hmarks, List.length_map]
  have hheights := (consecutive_append.mp h.heights_eq).1
  have hholds : ∀ f ∈ done, c.Holds f := fun f hf => h.holds f (List.mem_append_left rest hf)
  -- the loop over fewer heights does what is done about the first of them
  have hloop : ∀ n ≤ done.length, c.index first n
      = .ok ((done.take n).flatMap fun f => stored f.writes ++ f.closing) := by
    intro n hn
    have htake : (done.take n).length = n := List.length_take_of_le hn
    have htook : Consecutive first (done.take n) := by
      have hsplit := List.take_append_drop n done
      exact (consecutive_append.mp (hsplit ▸ hheights)).1
    have hindex := Chain.index_eq htook fun f hf => hholds f (List.mem_of_mem_take hf)
    rwa [htake] at hindex
  constructor
  · rw [hlength, hmarks]
    exact hheights
  · have htells := tells_flatMap done
    refine ⟨_, hlength ▸ (List.take_length ▸ hloop done.length le_rfl), ?_, ?_⟩
    · rw [hcommits, htells.commits_eq]
    · rw [hpublished, htells.published_eq]
  · intro n hn
    have htells := tells_flatMap (done.take n)
    refine ⟨_, hloop n (hlength ▸ hn), ?_, ?_⟩
    · rw [hcommits, htells.commits_eq, List.map_take]
    · rw [hpublished, htells.published_eq]
      have hsplit := List.take_append_drop n done
      refine ⟨(done.drop n).flatMap FetchedBlock.events, ?_⟩
      rw [← List.flatMap_append, hsplit]

/-- **Whatever a run commits is what the loop commits.**  A run is launched above what
is stored, with any settings, sizes and number of workers; it may have moved in any
order and may have been cancelled, and any of its calls may have failed. -/
theorem indexed_of_run (c : Chain) (settings : RunSettings) (standing : Standing) (root : Bool)
    {size capacity : ℕ} (hsize : 0 < size) (hcapacity : 0 < capacity) (slots : ℕ)
    {head : Except Failure ℕ} (hhead : Refresher.Bounded head) {trace : List Effect} {w : World}
    (hrun : Run c (resumed settings standing root hsize hcapacity slots head) trace w) :
    c.Indexed (Height.resume standing.store.latestHeight) trace ∧
      w.shared.ledger = standing.ledger.after trace := by
  obtain ⟨fs, hfollows⟩ :=
    hrun.follows (follows_resumed c settings standing root hsize hcapacity slots hhead)
  exact ⟨hfollows.indexed, hfollows.ledger_eq⟩

/-- Two workers fetch two heights, the higher one first; the buffer has room for one
chunk; a question to the node and a write fail once each. -/
theorem indexed_of_run_overtaken :
    let c : Chain := ⟨fun h => ⟨h, "", "", "", [[]], .null⟩, fun h => ⟨h, [.null]⟩⟩
    let settings : RunSettings := ⟨⟨⟨0, 0, some 2⟩, 1⟩, ⟨0, 0, some 2⟩, true⟩
    let standing : Standing := ⟨.empty, .start 1 Nat.one_pos, .ofHeight? none, {}⟩
    let w₀ := resumed settings standing false Nat.one_pos Nat.one_pos 2 (.ok 2)
    (0 < 1 ∧ Refresher.Bounded (.ok 2)) ∧ ∃ trace w, Run c w₀ trace w ∧ marks trace = [1, 2] ∧
      c.Indexed 1 trace ∧ w.shared.ledger = standing.ledger.after trace := by
  intro c settings standing w₀
  let fetching : List (Cue c) := [.worker 0, .worker 1, .worker 1, .worker 1, .workerFails 0,
    .worker 1, .worker 1, .sequencer, .sequencer, .worker 0, .worker 0, .worker 0, .worker 0,
    .worker 0]
  let committing : List (Cue c) := [.sequencer, .sequencer, .sequencer, .sequencer,
    .sequencerFails, .sequencer, .sequencer, .sequencer, .sequencer, .sequencer, .sequencer,
    .sequencer]
  have hreplay : (w₀.replay (fetching ++ committing)).map (fun out => marks out.1)
      = some [1, 2] := by decide +kernel
  obtain ⟨⟨trace, w⟩, hout, hmarks⟩ := Option.map_eq_some_iff.mp hreplay
  have hhead : Refresher.Bounded (.ok 2) := Refresher.bounded_ok (by decide)
  have hrun : Run c w₀ trace w := Run.start.replay hout
  exact ⟨⟨Nat.one_pos, hhead⟩, trace, w, hrun, hmarks,
    indexed_of_run c settings standing false Nat.one_pos Nat.one_pos 2 hhead hrun⟩

end World
end BlockIngest
