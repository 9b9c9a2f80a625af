import BlockIngest.Proofs.Commit.Discipline
import BlockIngest.Proofs.Except
import BlockIngest.Proofs.Fetch.Step

/-!
# What the answers of a node come to

A range is fetched in attempts.  Each of them asks about the heights one after the other and
ends with the first one that cannot be fetched; whatever was fetched before is thrown away,
and the next attempt begins anew.  So what becomes of a range follows from the answers alone:
the first attempt that succeeds decides it, or the first one that meets a height above the
node's head, or the last one that the policy permits.

## Main definitions

* `Failure.IsAbout` — which failed call a failure is about, whatever context stands above it.
* `Replies` — what a node answers, by attempt and height.
* `Replies.fetch`, `Replies.attempt` — what an attempt makes of the answers.
* `Replies.Serves` — a height as it was answered in an attempt.
* `Replies.Failed` — the first attempts fail for reasons that are worth another one.
* `ChunkOutcome`, `Replies.Decides` — how the fetching of a range ends, and what the answers
  come to.

## Main results

* `Failure.isAbout_iff` — callers find the failed call that a failure is about.
* `Replies.attempt_eq_ok_iff` — what a successful attempt has fetched.
* `Replies.Decides.unique` — **the answers come to one thing only.**
-/

namespace BlockIngest

/-! ### What a failure is about -/

/-- Whether a cause only says what was being done. -/
def Cause.IsContext : Cause → Prop
  | .text _ | .write _ => True
  | .rpc _ | .storage _ | .fatal _ => False

namespace Failure

variable {e : Failure} {x y : RpcError} {cs : List Cause}

/-- Whether a failure is this failed call to the node, possibly under contexts. -/
def IsAbout (e : Failure) (x : RpcError) : Prop :=
  ∃ contexts deeper, e.chain = contexts ++ .rpc x :: deeper ∧ ∀ c ∈ contexts, c.IsContext

theorem rpcErrorIn_append {contexts : List Cause} (hcontexts : ∀ c ∈ contexts, c.IsContext)
    (x : RpcError) (deeper : List Cause) :
    rpcErrorIn (contexts ++ .rpc x :: deeper) = some x := by
  induction contexts with
  | nil => rfl
  | cons c cs ih =>
    have hlater := ih fun c' hc' => hcontexts c' (List.mem_cons_of_mem c hc')
    have hcontext := hcontexts c List.mem_cons_self
    cases c with
    | text | write => exact hlater
    | rpc | storage | fatal => exact hcontext.elim

theorem of_rpcErrorIn (h : rpcErrorIn cs = some x) :
    ∃ contexts deeper, cs = contexts ++ .rpc x :: deeper ∧ ∀ c ∈ contexts, c.IsContext := by
  induction cs with
  | nil => cases h
  | cons c cs ih =>
    cases c with
    | text | write =>
      obtain ⟨contexts, deeper, rfl, hcontexts⟩ := ih h
      exact ⟨_ :: contexts, deeper, rfl, List.forall_mem_cons.mpr ⟨trivial, hcontexts⟩⟩
    | rpc e =>
      cases h
      exact ⟨[], cs, rfl, nofun⟩
    | storage | fatal => cases h

/-- Callers find the failed call that a failure is about. -/
theorem isAbout_iff : e.IsAbout x ↔ e.rpcError? = some x := by
  constructor
  · rintro ⟨contexts, deeper, hchain, hcontexts⟩
    unfold rpcError?
    rw [hchain]
    exact rpcErrorIn_append hcontexts x deeper
  · exact of_rpcErrorIn

theorem IsAbout.unique (hx : e.IsAbout x) (hy : e.IsAbout y) : x = y :=
  Option.some.inj ((isAbout_iff.mp hx).symm.trans (isAbout_iff.mp hy))

end Failure

theorem Worker.missing?_eq_some_iff {e : Failure} {m : ℕ} :
    missing? e = some m ↔ e.IsAbout (.heightNotFound m) := by
  rw [Failure.isAbout_iff]
  unfold missing?
  rcases e.rpcError? with _ | x
  · simp
  · cases x <;> simp

theorem Worker.missing?_eq_none_iff {e : Failure} :
    missing? e = none ↔ ∀ m, ¬ e.IsAbout (.heightNotFound m) := by
  rw [Option.eq_none_iff_forall_ne_some]
  exact forall_congr' fun _ => missing?_eq_some_iff.not

/-! ### Attempts -/

namespace FetchedBlock

variable (height index : ℕ) (txs : List (List UInt8)) (responses : List Json)

theorem pair_eq_mapIdx : pair height index txs responses
    = (txs.zip responses).mapIdx fun i (tx, response) =>
        ⟨height, (index + i) % 0x100000000, txHash tx, tx, response⟩ := by
  induction txs generalizing index responses with
  | nil => rfl
  | cons tx txs ih =>
    cases responses with
    | nil => rfl
    | cons response responses =>
      have hlater := ih (index + 1) responses
      simp only [Nat.add_assoc, Nat.add_comm 1] at hlater
      rw [pair, List.zip_cons_cons, List.mapIdx_cons]
      exact congrArg (_ :: ·) hlater

/-- Transactions stand with their outcomes, numbered in order. -/
theorem pair_zero : pair height 0 txs responses
    = (txs.zip responses).mapIdx fun i (tx, response) =>
        ⟨height, i % 0x100000000, txHash tx, tx, response⟩ := by
  simpa only [Nat.zero_add] using pair_eq_mapIdx height 0 txs responses

end FetchedBlock

/-- What a node answers while a range is fetched.  An attempt asks about a height once at most,
for its block and for the outcomes of its transactions, so the answers go by the number of the
attempt and by the height. -/
structure Replies where
  /-- The answer about the block. -/
  block : ℕ → ℕ → Except Failure Block
  /-- The answer about the outcomes. -/
  results : ℕ → ℕ → Except Failure BlockResults

namespace Replies

/-- What attempt `k` makes of the answers about a height. -/
def fetch (a : Replies) (k height : ℕ) : Except Failure FetchedBlock :=
  match a.block k height with
  | .error e => .error e
  | .ok b =>
      if b.height ≠ height then
        .error (.ofRpc (.inconsistent height s!"node returned block {b.height}"))
      else
        match a.results k height with
        | .error e => .error e
        | .ok results => (FetchedBlock.assemble b results).mapError .ofRpc

/-- What becomes of attempt `k` at a range: its heights in order, or the first failure. -/
def attempt (a : Replies) (r : ChunkRange) (k : ℕ) : Except Failure (List FetchedBlock) :=
  r.heights.mapM (a.fetch k)

/-- Whether a height was fetched as it was answered in attempt `k`: the block and the outcomes
are about this height, and there is one outcome for each transaction. -/
structure Serves (a : Replies) (k height : ℕ) (f : FetchedBlock) : Prop where
  /-- The block is the one that was answered. -/
  block_eq : a.block k height = .ok f.block
  /-- It has the height. -/
  height_eq : f.block.height = height
  /-- The outcomes are those that were answered, which have the height as well. -/
  txs_eq : ∃ results, a.results k height = .ok results ∧ results.height = height ∧
    results.deliverTx.length = f.block.txs.length ∧
    f.txs = (f.block.txs.zip results.deliverTx).mapIdx fun i (tx, response) =>
      ⟨height, i % 0x100000000, txHash tx, tx, response⟩

variable {a : Replies} {p : Retry.Policy} {r : ChunkRange} {k height : ℕ} {f : FetchedBlock}
  {fs : List FetchedBlock} {e : Failure} {es es' : List Failure}

theorem fetch_of_block_error (hblock : a.block k height = .error e) :
    a.fetch k height = .error e := by
  unfold fetch
  rw [hblock]

theorem fetch_of_height_ne {b : Block} (hblock : a.block k height = .ok b)
    (hheight : b.height ≠ height) : a.fetch k height
      = .error (.ofRpc (.inconsistent height s!"node returned block {b.height}")) := by
  unfold fetch
  simp only [hblock]
  exact if_pos hheight

section Answered

variable {b : Block} (hblock : a.block k height = .ok b) (hheight : b.height = height)
include hblock hheight

theorem fetch_of_results_error (hresults : a.results k height = .error e) :
    a.fetch k height = .error e := by
  unfold fetch
  simp only [hblock, hresults]
  exact if_neg (not_not_intro hheight)

theorem fetch_of_results {results : BlockResults} (hresults : a.results k height = .ok results) :
    a.fetch k height = (FetchedBlock.assemble b results).mapError .ofRpc := by
  unfold fetch
  simp only [hblock, hresults]
  exact if_neg (not_not_intro hheight)

end Answered

/-- A height is fetched if and only if the answers about it fit together. -/
theorem fetch_eq_ok_iff : a.fetch k height = .ok f ↔ a.Serves k height f := by
  constructor
  · intro h
    unfold fetch at h
    split at h
    · cases h
    · next b hblock =>
      split at h
      · cases h
      · next hheight =>
        split at h
        · cases h
        · next results hresults =>
          have hassemble := mapError_eq_ok.mp h
          unfold FetchedBlock.assemble at hassemble
          split_ifs at hassemble with hother hcount
          cases hassemble
          have hheight : b.height = height := Decidable.of_not_not hheight
          refine ⟨hblock, hheight, results, hresults, (Decidable.of_not_not hother).trans hheight,
            Decidable.of_not_not hcount, ?_⟩
          rw [← hheight]
          exact FetchedBlock.pair_zero _ _ _
  · rintro ⟨hblock, hheight, results, hresults, hother, hcount, htxs⟩
    rw [fetch_of_results hblock hheight hresults]
    unfold FetchedBlock.assemble
    rw [if_neg (not_not_intro (hother.trans hheight.symm)), if_neg (not_not_intro hcount), hheight,
      FetchedBlock.pair_zero, ← htxs]
    rfl

/-- An attempt succeeds if and only if it fetches each height of the range. -/
theorem attempt_eq_ok_iff :
    a.attempt r k = .ok fs ↔ List.Forall₂ (a.Serves k) r.heights fs := by
  have hserves : (fun height f => a.fetch k height = .ok f) = a.Serves k :=
    funext fun _ => funext fun _ => propext fetch_eq_ok_iff
  unfold attempt
  rw [mapM_eq_ok, hserves]

/-! ### Attempts that are not finished -/

/-- Whether attempt `k` has fetched these from the lowest height on. -/
def Got (a : Replies) (r : ChunkRange) (k : ℕ) (fs : List FetchedBlock) : Prop :=
  (List.range' r.first fs.length).mapM (a.fetch k) = .ok fs

theorem got_nil (a : Replies) (r : ChunkRange) (k : ℕ) : a.Got r k [] := rfl

theorem Got.add (h : a.Got r k fs) (hf : a.fetch k (r.first + fs.length) = .ok f) :
    a.Got r k (fs ++ [f]) := by
  unfold Got
  rw [List.length_append, List.length_singleton, List.range'_concat, Nat.one_mul]
  exact mapM_concat_ok h hf

/-- Once every height was fetched, the attempt has succeeded. -/
theorem Got.attempt_eq_ok (h : a.Got r k fs) (hlength : fs.length = r.size) :
    a.attempt r k = .ok fs := by
  unfold Got at h
  rwa [hlength] at h

/-- A height that is not fetched ends the attempt. -/
theorem Got.attempt_eq_error (h : a.Got r k fs) (hlt : fs.length < r.size)
    (he : a.fetch k (r.first + fs.length) = .error e) : a.attempt r k = .error e := by
  obtain ⟨later, hsize⟩ := Nat.exists_eq_add_of_lt hlt
  have hheights : r.heights = List.range' r.first fs.length
      ++ (r.first + fs.length) :: List.range' (r.first + fs.length + 1) later := by
    unfold ChunkRange.heights
    rw [hsize, Nat.add_assoc, ← List.range'_append_1, List.range'_succ]
  unfold attempt
  rw [hheights]
  exact mapM_append_error h he _

/-! ### What the answers come to -/

/-- Whether the first attempts fail in this way, none of them because a height is above the
node's head. -/
def Failed (a : Replies) (r : ChunkRange) (es : List Failure) : Prop :=
  ∀ k e, es[k]? = some e →
    a.attempt r (k + 1) = .error e ∧ ∀ m, ¬ e.IsAbout (.heightNotFound m)

theorem failed_nil (a : Replies) (r : ChunkRange) : a.Failed r [] := by
  intro k e he
  cases he

theorem Failed.concat (h : a.Failed r es) (hattempt : a.attempt r (es.length + 1) = .error e)
    (hmissing : ∀ m, ¬ e.IsAbout (.heightNotFound m)) : a.Failed r (es ++ [e]) := by
  intro k e' he'
  rcases Nat.lt_or_ge k es.length with hk | hk
  · rw [List.getElem?_append_left hk] at he'
    exact h k e' he'
  · rw [List.getElem?_append_right hk, List.getElem?_singleton] at he'
    obtain ⟨hzero, heq⟩ := Option.ite_none_right_eq_some.mp he'
    obtain rfl : k = es.length := by omega
    cases heq
    exact ⟨hattempt, hmissing⟩

theorem Failed.eq_of_length (h : a.Failed r es) (h' : a.Failed r es')
    (hlength : es.length = es'.length) : es = es' := by
  refine List.ext_getElem hlength fun k hk hk' => ?_
  have he := (h k _ (List.getElem?_eq_getElem hk)).1
  have he' := (h' k _ (List.getElem?_eq_getElem hk')).1
  exact Except.error.inj (he.symm.trans he')

end Replies

/-- How the fetching of a range ends. -/
inductive ChunkOutcome where
  /-- Every height was fetched. -/
  | fetched (chunk : CompletedChunk)
  /-- The node has no block of a height yet. -/
  | headReached (missing : ℕ)
  /-- All attempts were spent. -/
  | failed (attempts : ℕ) (failure : Failure)
  /-- The run was cancelled. -/
  | cancelled

/-- A chunk is known from its range and its blocks. -/
theorem CompletedChunk.eq_of {c d : CompletedChunk} (hrange : c.range = d.range)
    (hblocks : c.blocks = d.blocks) : c = d := by
  cases c
  cases d
  cases hrange
  cases hblocks
  rfl

namespace Replies

/-- What the answers come to if no cancellation comes between, with the failures of the attempts
that were followed by another one or were the last. -/
inductive Decides (a : Replies) (p : Retry.Policy) (r : ChunkRange) (es : List Failure) :
    ChunkOutcome → Prop
  /-- The attempt after those fetches every height of the range. -/
  | fetched {d : CompletedChunk} (hfailed : a.Failed r es) (hpermits : p.Permits (es.length + 1))
      (hrange : d.range = r)
      (hserves : List.Forall₂ (a.Serves (es.length + 1)) r.heights d.blocks) :
      Decides a p r es (.fetched d)
  /-- The attempt after those meets a height above the node's head. -/
  | headReached {m : ℕ} {e : Failure} (hfailed : a.Failed r es)
      (hpermits : p.Permits (es.length + 1)) (hattempt : a.attempt r (es.length + 1) = .error e)
      (habout : e.IsAbout (.heightNotFound m)) : Decides a p r es (.headReached m)
  /-- Those are all the attempts that the policy permits. -/
  | failed {n : ℕ} {e : Failure} (hfailed : a.Failed r es) (hceiling : p.attempts = some n)
      (hspent : es.length = max 1 n) (hlast : es.getLast? = some e) :
      Decides a p r es (.failed (max 1 n) e)

namespace Decides

variable {a : Replies} {p : Retry.Policy} {r : ChunkRange} {es es' : List Failure}
  {o o' : ChunkOutcome}

theorem failures (h : a.Decides p r es o) : a.Failed r es := by
  cases h with
  | fetched hfailed | headReached hfailed | failed hfailed => exact hfailed

theorem permits (h : a.Decides p r es o) : p.Permits es.length := by
  cases h with
  | fetched hfailed hpermits | headReached hfailed hpermits => exact hpermits.of_succ
  | failed hfailed hceiling hspent =>
    intro n hn
    rw [hceiling] at hn
    cases hn
    exact hspent.le

/-- After what decides, no other attempt fails. -/
theorem length_le (h : a.Decides p r es o) (h' : a.Decides p r es' o') :
    es'.length ≤ es.length := by
  by_contra hlt
  push Not at hlt
  obtain ⟨hfails, hmissing⟩ := h'.failures _ _ (List.getElem?_eq_getElem hlt)
  cases h with
  | fetched hfailed hpermits hrange hserves =>
    rw [attempt_eq_ok_iff.mpr hserves] at hfails
    cases hfails
  | headReached hfailed hpermits hattempt habout =>
    rw [hattempt] at hfails
    cases hfails
    exact hmissing _ habout
  | failed hfailed hceiling hspent =>
    have hle := h'.permits _ hceiling
    omega

/-- **The answers come to one thing only.** -/
theorem unique (h : a.Decides p r es o) (h' : a.Decides p r es' o') : es = es' ∧ o = o' := by
  have hlength := le_antisymm (h'.length_le h) (h.length_le h')
  obtain rfl := h.failures.eq_of_length h'.failures hlength
  refine ⟨rfl, ?_⟩
  have hfull : ∀ n, p.attempts = some n → es.length = max 1 n →
      ¬ p.Permits (es.length + 1) := by
    intro n hn hlength hpermits
    have hle := hpermits n hn
    omega
  cases h with
  | fetched hfailed hpermits hrange hserves =>
    have hattempt := attempt_eq_ok_iff.mpr hserves
    cases h' with
    | fetched hfailed' hpermits' hrange' hserves' =>
      have hblocks := Except.ok.inj (hattempt.symm.trans (attempt_eq_ok_iff.mpr hserves'))
      rw [CompletedChunk.eq_of (hrange.trans hrange'.symm) hblocks]
    | headReached hfailed' hpermits' hattempt' =>
      rw [hattempt] at hattempt'
      cases hattempt'
    | failed hfailed' hceiling hspent => exact absurd hpermits (hfull _ hceiling hspent)
  | headReached hfailed hpermits hattempt habout =>
    cases h' with
    | fetched hfailed' hpermits' hrange' hserves' =>
      rw [attempt_eq_ok_iff.mpr hserves'] at hattempt
      cases hattempt
    | headReached hfailed' hpermits' hattempt' habout' =>
      rw [hattempt] at hattempt'
      cases hattempt'
      cases habout.unique habout'
      rfl
    | failed hfailed' hceiling hspent => exact absurd hpermits (hfull _ hceiling hspent)
  | failed hfailed hceiling hspent hlast =>
    cases h' with
    | fetched hfailed' hpermits' | headReached hfailed' hpermits' =>
      exact absurd hpermits' (hfull _ hceiling hspent)
    | failed hfailed' hceiling' hspent' hlast' =>
      rw [hceiling] at hceiling'
      cases hceiling'
      rw [hlast] at hlast'
      cases hlast'
      rfl

end Decides
end Replies
end BlockIngest
