import BlockIngest.Block.Basic
import BlockIngest.Json.Decode

/-!
# Stored form of the records

Blocks and outcomes are stored as JSON objects in which transactions are written in base64.  A block
may be stored without the node's answer; it then counts as null.

## Main definitions

* `Block.toJson`, `TxResult.toJson` — writing a record.
* `Block.ofJson`, `TxResult.ofJson` — reading a record.
-/

namespace BlockIngest

open Json

/-- A block as JSON. -/
def Block.toJson (b : Block) : Json :=
  object [("height", .nat b.height), ("hash", .str b.hash), ("chain_id", .str b.chainId),
    ("time", .str b.time),
    ("txs", .arr (b.txs.map fun tx => .str (Base64.encodeText tx))), ("raw", b.raw)]

/-- An outcome as JSON. -/
def TxResult.toJson (t : TxResult) : Json :=
  object [("height", .nat t.height), ("index", .nat t.index), ("hash", .str t.hash),
    ("tx", .str (Base64.encodeText t.tx)), ("response", t.response)]

/-- The block that a JSON value denotes. -/
def Block.ofJson (v : Json) : Decoded Block := do
  let f ← form "Block" v
  let height := f.read 0 "height" (asWord 64)
  let hash := f.read 1 "hash" asText
  let chainId := f.read 2 "chain_id" asText
  let time := f.read 3 "time" asText
  let txs := f.read 4 "txs" asBytesList
  let raw := (f.read 5 "raw" asAny).withDefault .null
  f.finish "Block"
    [("height", height.state), ("hash", hash.state), ("chain_id", chainId.state),
      ("time", time.state),
      ("txs", txs.state), ("raw", raw.state)]
    (do return ⟨← height.get?, ← hash.get?, ← chainId.get?, ← time.get?, ← txs.get?, ← raw.get?⟩)

/-- The outcome that a JSON value denotes. -/
def TxResult.ofJson (v : Json) : Decoded TxResult := do
  let f ← form "TxResult" v
  let height := f.read 0 "height" (asWord 64)
  let index := f.read 1 "index" (asWord 32)
  let hash := f.read 2 "hash" asText
  let tx := f.read 3 "tx" asBytes
  let response := f.read 4 "response" asAny
  f.finish "TxResult"
    [("height", height.state), ("index", index.state), ("hash", hash.state), ("tx", tx.state),
      ("response", response.state)]
    (do return ⟨← height.get?, ← index.get?, ← hash.get?, ← tx.get?, ← response.get?⟩)

end BlockIngest
