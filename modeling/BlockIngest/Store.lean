import BlockIngest.Block.Basic
import BlockIngest.Counter
import BlockIngest.HeightMap

/-!
# The store

Blocks and transactions are kept by height and position.  Writing a record over an earlier one
replaces it.  A height counts as complete when as many transactions are stored for it as its block
has; only complete heights are reported, so that a height whose writes broke off is written again.

## Main definitions

* `Store`, `Store.empty` — what is stored.
* `Store.putBlock`, `Store.putTx` — the two writes.
* `Store.latestHeight` — the highest complete height.
* `Store.txByHash?` — a transaction by its name.
-/

namespace BlockIngest

/-- What is stored. -/
structure Store where
  /-- The blocks by height. -/
  blocks : HeightMap Block
  /-- The transactions by height and position. -/
  txs : HeightMap (HeightMap TxResult)
  /-- Where the transaction of a name was stored: name, height and position, latest first. -/
  index : List (String × Nat × Nat)
  /-- How many blocks were written, repeated writes included. -/
  blockWrites : Nat
  /-- How many transactions were written, repeated writes included. -/
  txWrites : Nat

namespace Store

/-- Nothing stored. -/
def empty : Store := ⟨.empty, .empty, [], 0, 0⟩

/-- The transactions of a height by position. -/
def txMapAt (s : Store) (height : Nat) : HeightMap TxResult := (s.txs.find? height).getD .empty

/-- The transactions of a height in order. -/
def txsAt (s : Store) (height : Nat) : List TxResult := (s.txMapAt height).values

/-- The transaction at a height and position. -/
def tx? (s : Store) (height index : Nat) : Option TxResult := (s.txMapAt height).find? index

/-- Writes a block. -/
def putBlock (s : Store) (b : Block) : Store :=
  { s with blocks := s.blocks.insert b.height b, blockWrites := Counter.bump s.blockWrites 1 }

/-- Writes a transaction. -/
def putTx (s : Store) (t : TxResult) : Store :=
  { s with
    txs := s.txs.insert t.height ((s.txMapAt t.height).insert t.index t)
    index := (t.hash, t.height, t.index) :: s.index
    txWrites := Counter.bump s.txWrites 1 }

/-- Whether as many transactions are stored for a block as it has. -/
def isComplete (s : Store) (b : Block) : Bool := (s.txMapAt b.height).size == b.txs.length

/-- The highest complete height. -/
def latestHeight (s : Store) : Option Nat :=
  (s.blocks.values.reverse.find? s.isComplete).map Block.height

/-- The block of a height. -/
def block? (s : Store) (height : Nat) : Option Block := s.blocks.find? height

/-- The heights that have a block, complete or not. -/
def heights (s : Store) : List Nat := s.blocks.keys

/-- The transaction stored last under a name. -/
def txByHash? (s : Store) (hash : String) : Option TxResult :=
  match s.index.find? (fun e => e.1 == hash) with
  | some (_, height, index) => s.tx? height index
  | none => none

/-- How many transactions are stored. -/
def txCount (s : Store) : Nat := s.txs.values.foldr (fun txs count => txs.size + count) 0

/-- Writes a block and all its transactions. -/
def putAll (s : Store) (f : FetchedBlock) : Store := f.txs.foldl putTx (s.putBlock f.block)

end Store

end BlockIngest
