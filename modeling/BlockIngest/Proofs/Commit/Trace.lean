import BlockIngest.Proofs.Commit.Discipline

/-!
# What a trace says

The heights that a trace marks, the events that it publishes, and the blocks and
transactions that it commits are read off its effects alone.  A height is
committed with what was written since its block was last written.

## Main definitions

* `marks`, `published`, `commits` — what a trace says.

## Main results

* `Commits.tells`, `Sequencer.Tracked.tells` — what the trace of committed heights
  says, and that of a sequencer.
-/

namespace BlockIngest

/-- The height that an effect marks. -/
def Effect.mark? : Effect → Option ℕ
  | .marked h => some h
  | _ => none

/-- The event that an effect publishes. -/
def Effect.event? : Effect → Option Event
  | .published e => some e
  | _ => none

/-- The heights that are marked. -/
def marks (es : List Effect) : List ℕ := es.filterMap Effect.mark?

/-- The events that are published. -/
def published (es : List Effect) : List Event := es.filterMap Effect.event?

/-- What was written since a block was last written, and is not committed yet, after
one more effect. -/
def Effect.opens (opened : Option (Block × List TxResult)) : Effect → Option (Block × List TxResult)
  | .wrote (.block b) (.ok _) => some (b, [])
  | .wrote (.tx t) (.ok _) => opened.map fun (b, txs) => (b, txs ++ [t])
  | .wrote _ (.error _) => opened
  | .marked _ => none
  | .published _ => opened

/-- The blocks and transactions that are committed, where `opened` was written
before. -/
def commitsFrom (opened : Option (Block × List TxResult)) :
    List Effect → List (Block × List TxResult)
  | [] => []
  | .marked _ :: es => opened.toList ++ commitsFrom none es
  | e :: es => commitsFrom (e.opens opened) es

/-- The blocks and transactions that are committed. -/
def commits (es : List Effect) : List (Block × List TxResult) := commitsFrom none es

theorem marks_append (es ds : List Effect) : marks (es ++ ds) = marks es ++ marks ds :=
  List.filterMap_append

theorem published_append (es ds : List Effect) :
    published (es ++ ds) = published es ++ published ds :=
  List.filterMap_append

/-! ### Writes by themselves -/

/-- Effects that are writes, whatever comes of them. -/
def OnlyWrites (es : List Effect) : Prop := ∀ e ∈ es, ∃ w outcome, e = .wrote w outcome

theorem onlyWrites_stored (ws : List Write) : OnlyWrites (stored ws) := by
  intro e he
  obtain ⟨w, -, rfl⟩ := List.mem_map.mp he
  exact ⟨w, .ok (), rfl⟩

theorem OnlyWrites.append {es ds : List Effect} (hes : OnlyWrites es) (hds : OnlyWrites ds) :
    OnlyWrites (es ++ ds) :=
  fun e he => (List.mem_append.mp he).elim (hes e) (hds e)

theorem Attempts.onlyWrites {f : FetchedBlock} {k : ℕ} {es : List Effect} (h : Attempts f k es) :
    OnlyWrites es := by
  induction h with
  | none => intro e he; cases he
  | @fail k es done rest w e hearlier hwrites ih =>
    refine ih.append ((onlyWrites_stored done).append ?_)
    intro x hx
    exact ⟨w, .error e, List.mem_singleton.mp hx⟩

theorem Stands.onlyWrites {p : Retry.Policy} {phase : SequencerPhase} {fs : List FetchedBlock}
    {es : List Effect} (h : Stands p phase fs es) : OnlyWrites es := by
  cases h with
  | popping | left => intro e he; cases he
  | pending hpending hretry hpermits hattempts =>
    exact hattempts.onlyWrites.append (onlyWrites_stored _)
  | pausing hretry hpermits hattempts => exact hattempts.onlyWrites
  | broken hended hattempts => exact hattempts.onlyWrites

namespace OnlyWrites

variable {es : List Effect}

theorem tail {e : Effect} (h : OnlyWrites (e :: es)) : OnlyWrites es :=
  fun x hx => h x (List.mem_cons_of_mem e hx)

theorem silent (h : OnlyWrites es) : marks es = [] ∧ published es = [] := by
  constructor
  all_goals
    refine List.filterMap_eq_nil_iff.mpr fun e he => ?_
    obtain ⟨w, outcome, rfl⟩ := h e he
    rfl

/-- Writes commit nothing; what follows is read from what they leave open. -/
theorem commitsFrom_append (h : OnlyWrites es) (opened : Option (Block × List TxResult))
    (ds : List Effect) :
    commitsFrom opened (es ++ ds) = commitsFrom (es.foldl Effect.opens opened) ds := by
  induction es generalizing opened with
  | nil => rfl
  | cons e es ih =>
    obtain ⟨w, outcome, rfl⟩ := h e List.mem_cons_self
    exact ih h.tail _

theorem commitsFrom_eq_nil (h : OnlyWrites es) (opened : Option (Block × List TxResult)) :
    commitsFrom opened es = [] := by
  have happend := h.commitsFrom_append opened []
  rwa [List.append_nil] at happend

end OnlyWrites

/-! ### Committed heights -/

private theorem foldl_opens_txs (b : Block) (txs ts : List TxResult) :
    (stored (ts.map .tx)).foldl Effect.opens (some (b, txs)) = some (b, txs ++ ts) := by
  induction ts generalizing txs with
  | nil => rw [List.append_nil]; rfl
  | cons t ts ih =>
    have hnext := ih (txs ++ [t])
    rw [List.append_assoc, List.singleton_append] at hnext
    exact hnext

/-- All writes of a height leave its block open, with its transactions. -/
theorem foldl_opens_writes (f : FetchedBlock) (opened : Option (Block × List TxResult)) :
    (stored f.writes).foldl Effect.opens opened = some (f.block, f.txs) :=
  foldl_opens_txs f.block [] f.txs

private theorem commitsFrom_published (opened : Option (Block × List TxResult))
    (events : List Event) (es : List Effect) :
    commitsFrom opened (events.map .published ++ es) = commitsFrom opened es := by
  induction events with
  | nil => rfl
  | cons e events ih => exact ih

theorem commitsFrom_closing (opened : Option (Block × List TxResult)) (f : FetchedBlock)
    (es : List Effect) :
    commitsFrom opened (f.closing ++ es) = opened.toList ++ commits es :=
  congrArg _ (commitsFrom_published none f.events es)

theorem marks_closing (f : FetchedBlock) : marks f.closing = [f.height] := by
  have hevents : marks (f.events.map .published) = [] := by
    refine List.filterMap_eq_nil_iff.mpr fun e he => ?_
    obtain ⟨event, -, rfl⟩ := List.mem_map.mp he
    rfl
  exact congrArg (f.height :: ·) hevents

theorem published_closing (f : FetchedBlock) : published f.closing = f.events := by
  have hevents : published (f.events.map .published) = f.events := by
    rw [published, List.filterMap_map]
    exact List.filterMap_some
  exact hevents

/-- What the trace of heights says that are all committed: their heights are marked,
their blocks and transactions committed, and their events published, in order.
What follows is read by itself. -/
structure Tells (fs : List FetchedBlock) (es : List Effect) : Prop where
  /-- The heights. -/
  marks_eq : marks es = fs.map FetchedBlock.height
  /-- The events. -/
  published_eq : published es = fs.flatMap FetchedBlock.events
  /-- The blocks and transactions. -/
  commits_append : ∀ ds, commits (es ++ ds) = fs.map (fun f => (f.block, f.txs)) ++ commits ds

/-- One more height is committed, after attempts that failed. -/
theorem Tells.snoc {fs : List FetchedBlock} {t es : List Effect} {f : FetchedBlock} (h : Tells fs t)
    (hes : OnlyWrites es) : Tells (fs ++ [f]) (t ++ (es ++ (stored f.writes ++ f.closing))) := by
  have hwrites := onlyWrites_stored f.writes
  constructor
  · rw [marks_append, marks_append, marks_append, h.marks_eq, hes.silent.1, hwrites.silent.1,
      marks_closing, List.map_append]
    rfl
  · rw [published_append, published_append, published_append, h.published_eq, hes.silent.2,
      hwrites.silent.2, published_closing, List.flatMap_append, List.flatMap_singleton]
    rfl
  · intro ds
    -- the attempt that succeeds begins with the block, so what the others left open is gone
    have hcommits : commits (es ++ (stored f.writes ++ f.closing) ++ ds)
        = (f.block, f.txs) :: commits ds := by
      rw [commits, List.append_assoc, hes.commitsFrom_append, List.append_assoc,
        hwrites.commitsFrom_append, foldl_opens_writes, commitsFrom_closing]
      rfl
    rw [List.append_assoc, h.commits_append, hcommits, List.map_append, List.append_assoc]
    rfl

theorem Tells.commits_eq {fs : List FetchedBlock} {es : List Effect} (h : Tells fs es) :
    commits es = fs.map fun f => (f.block, f.txs) := by
  have hcommits := h.commits_append []
  have hnil : commits [] = [] := rfl
  rwa [List.append_nil, hnil, List.append_nil] at hcommits

/-- **What the trace of committed heights says.** -/
theorem Commits.tells {p : Retry.Policy} {fs : List FetchedBlock} {t : List Effect}
    (h : Commits p fs t) : Tells fs t := by
  induction h with
  | nil => exact ⟨rfl, rfl, fun _ => rfl⟩
  | snoc hearlier hattempts hpermits ih => exact ih.snoc hattempts.onlyWrites

/-- What the trace of heights says that are committed at their first attempts. -/
theorem tells_flatMap (fs : List FetchedBlock) :
    Tells fs (fs.flatMap fun f => stored f.writes ++ f.closing) := by
  induction fs using List.reverseRecOn with
  | nil => exact ⟨rfl, rfl, fun _ => rfl⟩
  | append_singleton fs f ih =>
    rw [List.flatMap_append, List.flatMap_singleton]
    exact ih.snoc fun e he => absurd he List.not_mem_nil

/-- **What the trace of a sequencer says.**  It is about the first of the heights
that were fed. -/
theorem Sequencer.Tracked.tells {p : Retry.Policy} {fs : List FetchedBlock} {trace : List Effect}
    {q : Sequencer} (h : Tracked p fs trace q) :
    ∃ done rest, fs = done ++ rest ∧ marks trace = done.map FetchedBlock.height ∧
      published trace = done.flatMap FetchedBlock.events ∧
      commits trace = done.map fun f => (f.block, f.txs) := by
  obtain ⟨done, rest, t, es, hfs, rfl, hcommits, hstands⟩ := h.split
  -- what is done about the open height are writes alone
  have htells := hcommits.tells
  have hes := hstands.onlyWrites
  refine ⟨done, rest, hfs, ?_, ?_, ?_⟩
  · rw [marks_append, htells.marks_eq, hes.silent.1, List.append_nil]
  · rw [published_append, htells.published_eq, hes.silent.2, List.append_nil]
  · rw [htells.commits_append, commits, hes.commitsFrom_eq_nil, List.append_nil]

end BlockIngest
