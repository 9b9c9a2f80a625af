import BlockIngest.Proofs.Pipeline.Run
import BlockIngest.Proofs.Store.Contents

/-!
# How far a ledger has come

A ledger has come to a height if its store holds the chain up to there and its
progress says so.  Attempts that fail leave it where it is, even if they leave a
block and some transactions behind; a height that is committed takes it one height
further.

## Main definitions

* `Ledger.Reaches` — how far a ledger has come.

## Main results

* `Commits.reaches`, `Stands.reaches` — how far it comes by committed heights, and by
  an open one.
* `World.Follows.reaches` — **a run that follows a chain takes the ledger some heights
  further.**
-/

namespace BlockIngest

variable {c : Chain} {k : ℕ} {f : FetchedBlock}

/-! ### Writes of the next height -/

namespace FetchedBlock

/-- The first writes of a height are none, or its block with the first of its
transactions. -/
theorem writes_prefix {done rest : List Write} {w : Write} (h : f.writes = done ++ w :: rest) :
    done = [] ∨ ∃ i < f.txs.length, done = .block f.block :: (f.txs.take i).map .tx := by
  cases done with
  | nil => exact Or.inl rfl
  | cons v done =>
    have hv : Write.block f.block = v := (List.cons.inj h).1
    have htxs : f.txs.map Write.tx = done ++ w :: rest := (List.cons.inj h).2
    have hlength := congrArg List.length htxs
    rw [List.length_map, List.length_append, List.length_cons] at hlength
    have htake := congrArg (List.take done.length) htxs
    rw [List.take_left, ← List.map_take] at htake
    exact Or.inr ⟨done.length, by omega, by rw [htake, hv]⟩

end FetchedBlock

namespace Store.Holds

variable {s : Store}

theorem height_of_mem_writes {w : Write} (hf : f.Numbered) (hw : w ∈ f.writes) :
    w.height = f.height := by
  rcases List.mem_cons.mp hw with rfl | hw
  · rfl
  · obtain ⟨t, ht, rfl⟩ := List.mem_map.mp hw
    obtain ⟨i, hi⟩ := List.mem_iff_getElem?.mp ht
    exact (hf i t hi).1

/-- What there is of the next height agrees with the chain. -/
theorem at_next (hs : s.Holds c k) (hfetch : c.fetch (k + 1) = .ok f) :
    ∃ opened n, (n = 0 ∨ n < f.txs.length) ∧ s.At (k + 1) opened (f.txs.take n) := by
  rcases hs.begun with hnone | ⟨g, n, hg, hn, hat⟩
  · exact ⟨none, 0, Or.inl rfl, hnone⟩
  · have heq : g = f := Except.ok.inj (hg.symm.trans hfetch)
    subst heq
    exact ⟨some g.block, n, Or.inr hn, hat⟩

/-- Some of the writes of the next height do not complete it. -/
theorem write_prefix {done rest : List Write} {w : Write} (hs : s.Holds c k)
    (hfetch : c.fetch (k + 1) = .ok f) (hf : f.Numbered) (hwrites : f.writes = done ++ w :: rest) :
    (s.write done).Holds c k := by
  have hheight := Chain.height_of_fetch hfetch
  have hsettled := hs.toSettled.write fun v hv => by
    have hmem : v ∈ f.writes := by
      rw [hwrites]
      exact List.mem_append_left _ hv
    exact (height_of_mem_writes hf hmem).trans hheight
  refine ⟨hsettled, ?_⟩
  -- neither these writes nor earlier ones have brought the last transaction
  rcases FetchedBlock.writes_prefix hwrites with rfl | ⟨i, hi, rfl⟩
  · exact hs.begun
  · obtain ⟨opened, n, hn, hat⟩ := hs.at_next hfetch
    rw [← hheight] at hat ⊢
    refine Or.inr ⟨f, max n i, hheight ▸ hfetch, by omega, ?_⟩
    exact at_writes hf hat (Nat.le_of_lt hi)

theorem write_all (hs : s.Holds c k) (hfetch : c.fetch (k + 1) = .ok f) (hf : f.Numbered) :
    (s.write f.writes).Holds c (k + 1) := by
  have hheight := Chain.height_of_fetch hfetch
  have hsettled := hs.toSettled.write fun v hv =>
    (height_of_mem_writes hf hv).trans hheight
  obtain ⟨opened, n, hn, hat⟩ := hs.at_next hfetch
  have hall : (s.write f.writes).At (k + 1) (some f.block) f.txs := by
    rw [← hheight] at hat ⊢
    have hwritten := at_writes hf hat le_rfl
    rw [List.take_length, List.take_of_length_le (by omega)] at hwritten
    exact hwritten
  refine ⟨⟨?_, ?_⟩, Or.inl (hsettled.absent _ (by omega))⟩
  · intro h hlow hhigh
    by_cases hlast : h = k + 1
    · subst hlast
      exact ⟨f, hfetch, hall⟩
    · exact hsettled.complete h hlow (by omega)
  · intro h hh
    exact hsettled.absent h (by omega)

end Store.Holds

/-! ### Effects -/

namespace Ledger

/-- The height that a progress says if it says `k`; zero stands for none. -/
def reached (k : ℕ) : Option ℕ := if k = 0 then none else some k

/-- Whether a ledger has come to a height of a chain. -/
structure Reaches (c : Chain) (k : ℕ) (l : Ledger) : Prop where
  /-- The store holds the chain up to there. -/
  holds : l.store.Holds c k
  /-- The progress says so. -/
  progress_eq : l.progress = .ofHeight? (reached k)

namespace Reaches

variable {l : Ledger}

/-- What the progress says is what the store says. -/
theorem lastCommitted_eq (hl : l.Reaches c k) (hk : k < Height.top) :
    l.progress.lastCommitted = l.store.latestHeight := by
  rw [hl.holds.latestHeight_eq, hl.progress_eq]
  unfold reached Progress.ofHeight? Progress.lastCommitted
  split
  · rfl
  · exact if_neg (Nat.ne_of_lt hk)

theorem fail {done rest : List Write} {w : Write} {e : Failure} (hl : l.Reaches c k)
    (hfetch : c.fetch (k + 1) = .ok f) (hf : f.Numbered) (hwrites : f.writes = done ++ w :: rest) :
    (l.after (stored done ++ [.wrote w (.error e)])).Reaches c k := by
  rw [after_append, after_stored]
  exact ⟨hl.holds.write_prefix hfetch hf hwrites, hl.progress_eq⟩

theorem commit (hl : l.Reaches c k) (hfetch : c.fetch (k + 1) = .ok f) (hf : f.Numbered) :
    (l.after (stored f.writes ++ f.closing)).Reaches c (k + 1) := by
  rw [after_append, after_stored, after_closing]
  refine ⟨hl.holds.write_all hfetch hf, ?_⟩
  rw [Chain.height_of_fetch hfetch]
  rfl

end Reaches
end Ledger

theorem Attempts.reaches {l : Ledger} {n : ℕ} {es : List Effect} (h : Attempts f n es)
    (hl : l.Reaches c k) (hfetch : c.fetch (k + 1) = .ok f) (hf : f.Numbered) :
    (l.after es).Reaches c k := by
  induction h with
  | none => exact hl
  | fail hearlier hwrites ih =>
    rw [Ledger.after_append]
    exact ih.fail hfetch hf hwrites

/-- **Committed heights take a ledger further by as many heights.** -/
theorem Commits.reaches {p : Retry.Policy} {l : Ledger} {fs : List FetchedBlock} {t : List Effect}
    (h : Commits p fs t) (hc : c.Numbered) (hl : l.Reaches c k)
    (hheights : Consecutive (k + 1) fs)
    (hholds : ∀ f ∈ fs, c.Holds f) : (l.after t).Reaches c (k + fs.length) := by
  induction h with
  | nil => exact hl
  | @snoc f fs n es t hearlier hattempts hpermits ih =>
    -- the failed attempts leave the ledger at the height before, and the last one moves it
    obtain ⟨hbefore, hlast⟩ := consecutive_append.mp hheights
    have hheight : f.height = k + fs.length + 1 := by
      have heq := (consecutive_cons.mp hlast).1
      omega
    have hfetch : c.fetch (k + fs.length + 1) = .ok f := by
      rw [← hheight]
      exact hholds f (List.mem_append_right fs List.mem_cons_self)
    have hf := hc.of_fetch hfetch
    have hreached := ih hbefore fun g hg => hholds g (List.mem_append_left _ hg)
    rw [Ledger.after_append, Ledger.after_append, List.length_append]
    exact (hattempts.reaches hreached hfetch hf).commit hfetch hf

/-- **An open height leaves a ledger where it is.** -/
theorem Stands.reaches {p : Retry.Policy} {phase : SequencerPhase} {l : Ledger}
    {fs : List FetchedBlock} {es : List Effect} (h : Stands p phase fs es) (hc : c.Numbered)
    (hl : l.Reaches c k) (hnext : ∀ f, fs.head? = some f → c.fetch (k + 1) = .ok f) :
    (l.after es).Reaches c k := by
  cases h with
  | popping | left => exact hl
  | pending hpending hretry hpermits hattempts hwrites =>
    have hfetch := hnext _ rfl
    have hf := hc.of_fetch hfetch
    rw [Ledger.after_append, Ledger.after_stored]
    have hbefore := hattempts.reaches hl hfetch hf
    exact ⟨hbefore.holds.write_prefix hfetch hf hwrites, hbefore.progress_eq⟩
  | pausing hretry hpermits hattempts =>
    have hfetch := hnext _ rfl
    exact hattempts.reaches hl hfetch (hc.of_fetch hfetch)
  | broken hended hattempts hpermits =>
    have hfetch := hnext _ rfl
    exact hattempts.reaches hl hfetch (hc.of_fetch hfetch)

/-- **A run that follows a chain takes the ledger some heights further**, and not to
the top. -/
theorem World.Follows.reaches {l₀ : Ledger} {fs : List FetchedBlock} {trace : List Effect}
    {w : World} (h : w.Follows c (k + 1) l₀ fs trace) (hc : c.Numbered) (hl₀ : l₀.Reaches c k) :
    ∃ j < Height.top, w.shared.ledger.Reaches c j := by
  obtain ⟨done, rest, t, es, rfl, rfl, hcommits, hstands⟩ := h.tracked.split
  obtain ⟨hdone, hrest⟩ := consecutive_append.mp h.heights_eq
  have htop := h.le_top
  rw [List.length_append] at htop
  have hcommitted := hcommits.reaches hc hl₀ hdone
    fun f hf => h.holds f (List.mem_append_left rest hf)
  refine ⟨k + done.length, by omega, ?_⟩
  rw [h.ledger_eq, Ledger.after_append]
  refine hstands.reaches hc hcommitted fun f hf => ?_
  cases rest with
  | nil => cases hf
  | cons g rest =>
    cases hf
    have hheight : f.height = k + done.length + 1 := by
      have heq := (consecutive_cons.mp hrest).1
      omega
    rw [← hheight]
    exact h.holds f (List.mem_append_right done List.mem_cons_self)

end BlockIngest
