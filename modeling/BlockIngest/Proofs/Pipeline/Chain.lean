import BlockIngest.Proofs.Commit.Effect
import BlockIngest.Pipeline.Worker

/-!
# The chain behind the node

A node answers many times about one height, and some of its answers fail; but the
answers that succeed are always the same.  They make a chain: a block for each
height, and what came of its transactions.  A chain can be indexed by a loop that
fetches one height after the other and commits it at once, without workers, chunks
or buffers.

## Main definitions

* `Chain`, `Chain.fetch` — the answers that succeed, and a height put together from
  them.
* `Chain.Answers` — answers that a worker may get.
* `Chain.index` — the loop.

## Main results

* `Chain.index_eq` — what the loop does about heights that can be fetched.
-/

namespace BlockIngest

/-- What the node answers about each height, whenever it answers. -/
structure Chain where
  /-- The block. -/
  block : ℕ → Block
  /-- The outcomes of its transactions. -/
  results : ℕ → BlockResults

/-- Whether a failure is one that a node can cause: a height that it says is above its
head is a height. -/
def Failure.Bounded (e : Failure) : Prop := ∀ h, Worker.missing? e = some h → h ≤ Height.top

namespace Chain

variable {c : Chain} {h : ℕ} {f : FetchedBlock}

/-- A height as it is fetched.  The block must be the one that was asked for, and
the outcomes must fit it. -/
def fetch (c : Chain) (h : ℕ) : Except RpcError FetchedBlock :=
  if (c.block h).height ≠ h then
    .error (.inconsistent h s!"node returned block {(c.block h).height}")
  else FetchedBlock.assemble (c.block h) (c.results h)

/-- Whether a height is as the chain has it. -/
def Holds (c : Chain) (f : FetchedBlock) : Prop := c.fetch f.height = .ok f

theorem assemble_of_fetch (hfetch : c.fetch h = .ok f) :
    (c.block h).height = h ∧ FetchedBlock.assemble (c.block h) (c.results h) = .ok f := by
  unfold fetch at hfetch
  split at hfetch
  · cases hfetch
  · next hheight => exact ⟨Decidable.of_not_not hheight, hfetch⟩

theorem height_of_fetch (hfetch : c.fetch h = .ok f) : f.height = h := by
  obtain ⟨hheight, hassemble⟩ := assemble_of_fetch hfetch
  exact (FetchedBlock.height_of_assemble hassemble).trans hheight

theorem assembled_of_fetch (hfetch : c.fetch h = .ok f) : f.Assembled :=
  ⟨_, _, (assemble_of_fetch hfetch).2⟩

/-- Answers about a height that fit each other are what the chain has there. -/
theorem holds_of_assemble (hheight : (c.block h).height = h)
    (hassemble : FetchedBlock.assemble (c.block h) (c.results h) = .ok f) : c.Holds f := by
  have hf : f.height = h := (FetchedBlock.height_of_assemble hassemble).trans hheight
  unfold Holds fetch
  rw [hf, if_neg (not_not_intro hheight)]
  exact hassemble

/-! ### Answers -/

/-- Whether a signal may reach a worker in a phase: if it is an answer that
succeeds, then it is the chain's. -/
def Answers (c : Chain) : WorkerPhase → WorkerSignal → Prop
  | .awaitingBlock job, .block (.ok b) => b = c.block job.height
  | .awaitingResults job _, .results (.ok r) => r = c.results job.height
  | _, .block (.error e) => e.Bounded
  | _, .results (.error e) => e.Bounded
  | _, _ => True

/-! ### The sequential loop -/

/-- What a loop does that indexes `n` heights from `h` on: it fetches a height,
writes its block and its transactions in order, publishes their events, and goes on
to the next one. -/
def index (c : Chain) (h : ℕ) : ℕ → Except RpcError (List Effect)
  | 0 => .ok []
  | n + 1 => do
      let f ← c.fetch h
      let later ← c.index (h + 1) n
      return stored f.writes ++ (f.closing ++ later)

/-- **The loop commits heights that the chain has**, one after the other. -/
theorem index_eq {fs : List FetchedBlock} (hheights : Consecutive h fs)
    (hholds : ∀ f ∈ fs, c.Holds f) :
    c.index h fs.length = .ok (fs.flatMap fun f => stored f.writes ++ f.closing) := by
  induction fs generalizing h with
  | nil => rfl
  | cons f fs ih =>
    obtain ⟨hf, hfs⟩ := consecutive_cons.mp hheights
    have hfetch : c.fetch h = .ok f := hf ▸ hholds f List.mem_cons_self
    have hlater := ih hfs fun g hg => hholds g (List.mem_cons_of_mem f hg)
    rw [List.length_cons, index, hfetch, hlater, List.flatMap_cons, List.append_assoc]
    rfl

end Chain
end BlockIngest
