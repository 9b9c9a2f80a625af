import BlockIngest.Block.Basic

/-!
# Events

Once a height is stored, subscribers are told about its block and about each of its transactions.

## Main definitions

* `Topic`, `Event` — what one can subscribe to, and what one is told.
* `FetchedBlock.events` — the events of a height, in the order in which they are published.
-/

namespace BlockIngest

/-- What one can subscribe to. -/
inductive Topic where
  /-- Every stored block. -/
  | newBlock
  /-- Every stored transaction. -/
  | newTransaction
  deriving DecidableEq, Repr

/-- The name of a topic. -/
def Topic.message : Topic → String
  | .newBlock => "new_block"
  | .newTransaction => "new_transaction"

/-- The one topic that this is not. -/
def Topic.other : Topic → Topic
  | .newBlock => .newTransaction
  | .newTransaction => .newBlock

/-- What one is told. -/
inductive Event where
  /-- A block was stored. -/
  | block (b : Block)
  /-- A transaction was stored. -/
  | transaction (t : TxResult)
  deriving Inhabited

namespace Event

/-- The topic of an event. -/
def topic : Event → Topic
  | .block _ => .newBlock
  | .transaction _ => .newTransaction

/-- The height that an event is about. -/
def height : Event → Nat
  | .block b => b.height
  | .transaction t => t.height

end Event

/-- The events of a height: its block, then its transactions in order. -/
def FetchedBlock.events (f : FetchedBlock) : List Event := .block f.block :: f.txs.map .transaction

end BlockIngest
