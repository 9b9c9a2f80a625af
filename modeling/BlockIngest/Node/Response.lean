import BlockIngest.Block.Basic
import BlockIngest.Json.Decode

/-!
# The node's answers

What is read from the answers to the three calls.  Members that are not mentioned here may stand
there and are not looked at.  A block without transactions may have a list that is null, no list, or
no data at all.

## Main definitions

* `NodeStatus.ofJson`, `NodeBlock.ofJson`, `NodeResults.ofJson` — the answers.
* `decodeTxs` — the transactions of a block.
-/

namespace BlockIngest

open Json

/-- A record with a single field that must be there. -/
def soleField {α : Type} (record name : String) (item : Json → Decoded α) (v : Json) :
    Decoded α := do
  let f ← form record v
  let field := f.read 0 name item
  f.finish record [(name, field.state)] field.get?

/-- A record with a single field that may be absent or null. -/
def soleOptional {α : Type} (record name : String) (item : Json → Decoded α) (v : Json) :
    Decoded (Option α) := do
  let f ← form record v
  let field := (f.read 0 name (asOptional item)).withDefault none
  f.finish record [(name, field.state)] field.get?

/-- The height of the chain head. -/
def NodeStatus.ofJson : Json → Decoded Nat :=
  soleField "StatusResponse" "sync_info" (soleField "SyncInfo" "latest_block_height" asHeight)

/-- What a block's header says. -/
structure NodeHeader where
  /-- The chain. -/
  chainId : String
  /-- The height. -/
  height : Nat
  /-- The time. -/
  time : String
  deriving DecidableEq, Repr

/-- The header that a JSON value denotes. -/
def NodeHeader.ofJson (v : Json) : Decoded NodeHeader := do
  let f ← form "Header" v
  let chainId := f.read 0 "chain_id" asText
  let height := f.read 1 "height" asHeight
  let time := f.read 2 "time" asText
  f.finish "Header" [("chain_id", chainId.state), ("height", height.state), ("time", time.state)]
    (do return ⟨← chainId.get?, ← height.get?, ← time.get?⟩)

/-- What a block's answer says. -/
structure NodeBlock where
  /-- The hash, if there is one. -/
  hash : Option String
  /-- The header. -/
  header : NodeHeader
  /-- The transactions as they are written, if there is a list. -/
  txs : Option (List String)
  deriving DecidableEq, Repr

/-- Header and transactions of the body of a block. -/
def NodeBlock.bodyOfJson (v : Json) : Decoded (NodeHeader × Option (List String)) := do
  let f ← form "BlockBody" v
  let header := f.read 0 "header" NodeHeader.ofJson
  let data := (f.read 1 "data" (soleOptional "BlockData" "txs" (asList asText))).withDefault none
  f.finish "BlockBody" [("header", header.state), ("data", data.state)]
    (do return (← header.get?, ← data.get?))

/-- The block that an answer denotes. -/
def NodeBlock.ofJson (v : Json) : Decoded NodeBlock := do
  let f ← form "BlockResponse" v
  let hash := f.read 0 "block_meta"
    (soleField "BlockMeta" "block_id" (soleOptional "BlockId" "hash" asText))
  let body := f.read 1 "block" NodeBlock.bodyOfJson
  f.finish "BlockResponse" [("block_meta", hash.state), ("block", body.state)]
    (do
      let hash ← hash.get?
      let (header, txs) ← body.get?
      return ⟨hash, header, txs⟩)

/-- The outcomes that an answer denotes. -/
def NodeResults.ofJson (v : Json) : Decoded BlockResults := do
  let f ← form "BlockResultsResponse" v
  let height := f.read 0 "height" asHeight
  let results := f.read 1 "results" (soleOptional "ResultsBody" "deliver_tx" (asList asAny))
  f.finish "BlockResultsResponse" [("height", height.state), ("results", results.state)]
    (do return ⟨← height.get?, (← results.get?).getD []⟩)

/-- Decodes transactions, numbering them from `index` on; the first that does not denote bytes is
reported. -/
def decodeTxsFrom (index : Nat) : List String → Except Failure (List (List UInt8))
  | [] => .ok []
  | tx :: txs =>
      match Base64.decodeText (Text.trim tx) with
      | .error e => .error ((Failure.ofText e.message).context s!"tx {index} is not valid base64")
      | .ok bytes => do return bytes :: (← decodeTxsFrom (index + 1) txs)

/-- The transactions of a block; each may stand between blanks.  No list means no transactions. -/
def decodeTxs (txs : Option (List String)) : Except Failure (List (List UInt8)) :=
  decodeTxsFrom 0 (txs.getD [])

end BlockIngest
