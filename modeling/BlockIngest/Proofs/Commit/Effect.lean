import BlockIngest.Pipeline.Sequencer
import Mathlib.Data.Nat.Notation

/-!
# What the sequencer does to the world outside

The sequencer is the only task that writes to the store, marks heights as
committed and publishes events.  What it does is a list of such effects; they
change the ledger, that is the store, the progress and the publisher.

## Main definitions

* `Write`, `Effect` — a write, and what is seen from outside.
* `Consecutive` — heights that follow one another.
* `FetchedBlock.writes`, `FetchedBlock.closing` — the writes of a height, and what
  follows them.
* `Ledger`, `Effect.perform`, `Ledger.after` — what outlives a run but for the
  counters, and what effects make of it.

## Main results

* `FetchedBlock.numbers_txs` — the transactions of a height are numbered in order.
* `Ledger.after_closing` — a height that is closed is marked and told to everyone.
-/

namespace BlockIngest

/-- A write of one record. -/
inductive Write where
  /-- A block is written. -/
  | block (b : Block)
  /-- A transaction is written. -/
  | tx (t : TxResult)

/-- The name of a write. -/
def Write.op : Write → StorageOp
  | .block _ => .saveBlock
  | .tx t => .saveTx t.index

/-- The height whose record is written. -/
def Write.height : Write → ℕ
  | .block b => b.height
  | .tx t => t.height

/-- The store after a write. -/
def Write.put (s : Store) : Write → Store
  | .block b => s.putBlock b
  | .tx t => s.putTx t

/-- The store after writes, one after the other. -/
def Store.write (s : Store) (ws : List Write) : Store := ws.foldl Write.put s

theorem Store.write_append (s : Store) (ws vs : List Write) :
    s.write (ws ++ vs) = (s.write ws).write vs := List.foldl_append

/-- What the sequencer does that is seen from outside. -/
inductive Effect where
  /-- A write was tried; one that fails has stored nothing. -/
  | wrote (w : Write) (outcome : Except Failure Unit)
  /-- A height was marked as committed. -/
  | marked (height : ℕ)
  /-- An event was published. -/
  | published (e : Event)

/-- Writes of which each succeeds. -/
def stored (ws : List Write) : List Effect := ws.map (.wrote · (.ok ()))

theorem stored_append (ws vs : List Write) : stored (ws ++ vs) = stored ws ++ stored vs :=
  List.map_append

theorem stored_singleton (w : Write) : stored [w] = [.wrote w (.ok ())] := rfl

/-! ### The effects of a height -/

/-- Whether heights follow one another from a height on. -/
def Consecutive (n : ℕ) (fs : List FetchedBlock) : Prop :=
  fs.map FetchedBlock.height = List.range' n fs.length

theorem consecutive_cons {n : ℕ} {f : FetchedBlock} {fs : List FetchedBlock} :
    Consecutive n (f :: fs) ↔ f.height = n ∧ Consecutive (n + 1) fs := by
  unfold Consecutive
  rw [List.map_cons, List.length_cons, List.range'_succ, List.cons.injEq]

theorem consecutive_append {n : ℕ} {fs gs : List FetchedBlock} :
    Consecutive n (fs ++ gs) ↔ Consecutive n fs ∧ Consecutive (n + fs.length) gs := by
  unfold Consecutive
  have hlength : (fs.map FetchedBlock.height).length = (List.range' n fs.length).length := by
    rw [List.length_map, List.length_range']
  rw [List.map_append, List.length_append, ← List.range'_append_1,
    List.append_eq_append_iff_of_size_eq_left hlength]

namespace FetchedBlock

/-- The writes of a height: its block, then its transactions in order. -/
def writes (f : FetchedBlock) : List Write := .block f.block :: f.txs.map .tx

theorem block_mem_writes {f : FetchedBlock} {b : Block} : .block b ∈ f.writes ↔ b = f.block := by
  simp [writes]

theorem tx_mem_writes {f : FetchedBlock} {t : TxResult} : .tx t ∈ f.writes ↔ t ∈ f.txs := by
  simp [writes]

/-- What follows once all of them have succeeded: the height is marked, and then
its events are published. -/
def closing (f : FetchedBlock) : List Effect := .marked f.height :: f.events.map .published

/-- Whether a height was put together from a block and the outcomes of its
transactions, as every height is. -/
def Assembled (f : FetchedBlock) : Prop := ∃ b r, assemble b r = .ok f

theorem block_of_assemble {f : FetchedBlock} {b : Block} {r : BlockResults}
    (h : assemble b r = .ok f) : f.block = b := by
  unfold assemble at h
  split at h
  · cases h
  · split at h
    · cases h
    · cases h
      rfl

theorem numbers_pair (height index : ℕ) (txs : List (List UInt8)) (responses : List Json)
    (hlen : responses.length = txs.length) :
    (pair height index txs responses).map (fun t => (t.height, t.index))
      = (List.range' index txs.length).map fun i => (height, i % 0x100000000) := by
  induction txs generalizing index responses with
  | nil => rfl
  | cons tx txs ih =>
    -- there are as many outcomes, so neither list ends before the other
    cases responses with
    | nil => cases hlen
    | cons response responses =>
      have hlater := ih (index + 1) responses (Nat.succ.inj hlen)
      rw [pair, List.map_cons, hlater, List.length_cons, List.range'_succ]
      rfl

/-- **The transactions of a height are numbered in order**, with numbers of 32
bits. -/
theorem numbers_txs {f : FetchedBlock} (h : f.Assembled) :
    f.txs.map (fun t => (t.height, t.index))
      = (List.range f.block.txs.length).map fun i => (f.height, i % 0x100000000) := by
  obtain ⟨b, r, h⟩ := h
  unfold assemble at h
  split at h
  · cases h
  · split at h
    · cases h
    · next hlen =>
      cases h
      rw [List.range_eq_range']
      exact numbers_pair _ _ _ _ (Decidable.of_not_not hlen)

/-- However many transactions there are, their numbers have 32 bits. -/
theorem index_lt {f : FetchedBlock} (h : f.Assembled) {t : TxResult} (ht : t ∈ f.txs) :
    t.index < 0x100000000 := by
  have hmem := List.mem_map_of_mem (f := fun t : TxResult => (t.height, t.index)) ht
  rw [numbers_txs h] at hmem
  obtain ⟨i, -, hi⟩ := List.mem_map.mp hmem
  have hindex : i % 0x100000000 = t.index := (Prod.mk.inj hi).2
  omega

theorem length_txs {f : FetchedBlock} (h : f.Assembled) : f.txs.length = f.block.txs.length := by
  have hnumbers := congrArg List.length (numbers_txs h)
  simpa using hnumbers

end FetchedBlock

/-! ### What effects change -/

/-- What outlives a run, but for the counters. -/
structure Ledger where
  /-- What is stored. -/
  store : Store
  /-- The last committed height. -/
  progress : Progress
  /-- Who is told about it. -/
  publisher : Publisher

/-- What outlives a run, but for the counters. -/
def Standing.ledger (s : Standing) : Ledger := ⟨s.store, s.progress, s.publisher⟩

/-- The ledger after an effect. -/
def Effect.perform (l : Ledger) : Effect → Ledger
  | .wrote w (.ok _) => { l with store := w.put l.store }
  | .wrote _ (.error _) => l
  | .marked height => { l with progress := l.progress.mark height }
  | .published e => { l with publisher := (l.publisher.publish e).2 }

namespace Ledger

/-- The ledger after effects, one after the other. -/
def after (l : Ledger) (es : List Effect) : Ledger := es.foldl Effect.perform l

theorem after_cons (l : Ledger) (e : Effect) (es : List Effect) :
    l.after (e :: es) = (e.perform l).after es := rfl

theorem after_append (l : Ledger) (es ds : List Effect) :
    l.after (es ++ ds) = (l.after es).after ds := List.foldl_append

theorem after_stored (l : Ledger) (ws : List Write) :
    l.after (stored ws) = { l with store := l.store.write ws } := by
  induction ws generalizing l with
  | nil => rfl
  | cons w ws ih => exact ih _

theorem after_published (l : Ledger) (events : List Event) :
    l.after (events.map .published) = { l with publisher := l.publisher.publishAll events } := by
  induction events generalizing l with
  | nil => rfl
  | cons e events ih => exact ih _

/-- Closing a height marks it and publishes its events. -/
theorem after_closing (l : Ledger) (f : FetchedBlock) :
    l.after f.closing = { l with
      progress := l.progress.mark f.height, publisher := l.publisher.publishAll f.events } := by
  rw [FetchedBlock.closing, after_cons, after_published]
  rfl

end Ledger
end BlockIngest
