import BlockIngest.Failure
import BlockIngest.Json.Basic
import BlockIngest.Sha256

/-!
# Blocks and transactions

A block as the node reports it, the outcome of each of its transactions, and the two put together.
Every record of a transaction is keyed by the height of its block and its position in it.

## Main definitions

* `Block`, `TxResult`, `BlockResults` — the records.
* `txHash` — the name of a transaction.
* `FetchedBlock`, `FetchedBlock.assemble` — a block with one outcome for each of its transactions.
-/

namespace BlockIngest

/-- A block as the node reports it. -/
structure Block where
  /-- The height. -/
  height : Nat
  /-- The hash in the node's own encoding. -/
  hash : String
  /-- The chain. -/
  chainId : String
  /-- The time of the block as the node writes it. -/
  time : String
  /-- The transactions in order. -/
  txs : List (List UInt8)
  /-- The node's whole answer. -/
  raw : Json
  deriving Inhabited

/-- The outcome of one transaction. -/
structure TxResult where
  /-- The height of the block. -/
  height : Nat
  /-- The position in the block. -/
  index : Nat
  /-- The name of the transaction. -/
  hash : String
  /-- The transaction itself. -/
  tx : List UInt8
  /-- The outcome as the node reports it. -/
  response : Json
  deriving Inhabited

/-- What the node reports about the transactions of one height. -/
structure BlockResults where
  /-- The height. -/
  height : Nat
  /-- The outcomes in order. -/
  deliverTx : List Json

/-- A transaction is named by the SHA-256 digest of its bytes. -/
def txHash (tx : List UInt8) : String := Sha256.hexDigest tx

/-- A block with the outcomes of its transactions. -/
structure FetchedBlock where
  /-- The block. -/
  block : Block
  /-- One outcome for each transaction, in order. -/
  txs : List TxResult
  deriving Inhabited

namespace FetchedBlock

/-- The height of the block. -/
def height (f : FetchedBlock) : Nat := f.block.height

/-- Pairs transactions with outcomes, numbering them from `index` on.  Indexes have 32 bits. -/
def pair (height : Nat) : Nat → List (List UInt8) → List Json → List TxResult
  | index, tx :: txs, response :: responses =>
      ⟨height, index % 0x100000000, txHash tx, tx, response⟩ ::
      pair height (index + 1) txs responses
  | _, _, _ => []

/-- Puts a block and its outcomes together, provided both are about one height and one number of
transactions. -/
def assemble (block : Block) (results : BlockResults) : Except RpcError FetchedBlock :=
  if results.height ≠ block.height then
    .error (.inconsistent block.height s!"block_results reported height {results.height}")
  else if results.deliverTx.length ≠ block.txs.length then
    .error (.inconsistent block.height
      s!"block carries {block.txs.length} txs but block_results carries {results.deliverTx.length}")
  else .ok ⟨block, pair block.height 0 block.txs results.deliverTx⟩

/-- What is assembled is about the height of its block. -/
theorem height_of_assemble {block : Block} {results : BlockResults} {f : FetchedBlock}
    (h : assemble block results = .ok f) : f.height = block.height := by
  unfold assemble at h
  split at h
  · cases h
  · split at h
    · cases h
    · cases h; rfl

end FetchedBlock

end BlockIngest
