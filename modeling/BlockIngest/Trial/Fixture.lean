import BlockIngest.Base64
import BlockIngest.Chunk

/-!
# Invented blocks

Blocks whose every field follows from the height and the number of transactions, so that a trial can
say what it expects of a chain without writing the chain down.

## Main definitions

* `Trial.block`, `Trial.results` — the two answers of a node about one height.
* `Trial.fetched` — the two put together.
* `Trial.chunk` — a chunk of such heights.
-/

namespace BlockIngest

namespace Trial

/-- The bytes of the transaction at a position of a height. -/
def txBytes (height index : Nat) : List UInt8 := Base64.utf8 s!"tx-{height}-{index}"

/-- The outcome of the transaction at a position. -/
def response (index : Nat) : Json := .obj [("index", .nat index)]

/-- The block of a height with `txs` transactions. -/
def block (height txs : Nat) : Block where
  height := height
  hash := s!"hash-{height}"
  chainId := "dev"
  time := "2024-01-01T00:00:00Z"
  txs := (List.range txs).map (txBytes height)
  raw := .null

/-- The outcomes of `txs` transactions of a height. -/
def results (height txs : Nat) : BlockResults := ⟨height, (List.range txs).map response⟩

/-- The record of one transaction. -/
def txResult (height index : Nat) : TxResult :=
  ⟨height, index, txHash (txBytes height index), txBytes height index, response index⟩

/-- A height as it is fetched: block and outcomes agree, so that putting them together cannot
fail. -/
def fetched (height txs : Nat) : FetchedBlock :=
  ⟨block height txs,
    FetchedBlock.pair height 0 (block height txs).txs (results height txs).deliverTx⟩

/-- A block and its outcomes fit together. -/
theorem assemble_block_results (height txs : Nat) :
    FetchedBlock.assemble (block height txs) (results height txs) = .ok (fetched height txs) := by
  simp [FetchedBlock.assemble, block, results, fetched]

/-- The chunk of the heights from `first` to `last`, each with `txs` transactions. -/
def chunk (first last txs : Nat) : Except String CompletedChunk := do
  let range ← ChunkRange.make first last
  CompletedChunk.make range (range.heights.map fun h => fetched h txs)

end Trial

end BlockIngest
