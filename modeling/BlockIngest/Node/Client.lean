import BlockIngest.Config
import BlockIngest.Node.Metrics
import BlockIngest.Node.Options
import BlockIngest.Node.Response

/-!
# Calls to the node

Three calls are made: for the head of the chain, for a block, and for the outcomes of a block's
transactions.  Each call ends in one of five ways, is counted, and is then given to the caller as a
value or as a failure that says what went wrong.  An answer that has the wrong shape counts as
answered.

## Main definitions

* `Exchange` — how a call ends on the wire.
* `NodeClient`, `NodeClient.make` — an address with limits and counters.
* `NodeClient.ofConfig`, `NodeClient.forRunner` — the same for a configuration.
* `NodeClient.latestHeight`, `NodeClient.block`, `NodeClient.blockResults` — what the caller gets.
* `Request`, `NodeReply`, `NodeClient.send` — what is sent, and how what comes back ends the call.
-/

namespace BlockIngest

/-- The methods of the node. -/
inductive Method where
  /-- The state of the node. -/
  | status
  /-- A block. -/
  | block
  /-- The outcomes of a block's transactions. -/
  | blockResults
  deriving DecidableEq, Repr

/-- The name of a method. -/
def Method.message : Method → String
  | .status => "status"
  | .block => "block"
  | .blockResults => "block_results"

/-- How a call ends on the wire. -/
inductive Exchange where
  /-- The node answered with a value. -/
  | answered (result : Json)
  /-- The node answered with an error. -/
  | refused (code : Int) (text : String)
  /-- There was no answer, for the reason given. -/
  | failed (text : String)
  /-- The connection itself has given up waiting for an answer. -/
  | lapsed
  /-- There was no answer before the deadline of the call. -/
  | silent

/-- A node's words for a height above its head contain this text. -/
def aboveHeadText : String := "must be less than or equal to"

/-- Whether `needle` occurs in `cs`. -/
def containsList (needle : List Char) : List Char → Bool
  | [] => needle.isEmpty
  | c :: cs => needle.isPrefixOf (c :: cs) || containsList needle cs

/-- Whether a node's words say that a height is above its head. -/
def isAboveHead (text : String) : Bool := containsList aboveHeadText.toList text.toList

/-- The failure of an exchange that brought no value.  Only a call about a height can find it above
the head. -/
def Exchange.rpcError (m : Method) (height : Option Nat) : Exchange → Option RpcError
  | .answered _ => none
  | .refused code text =>
      match height with
      | some h =>
          if isAboveHead text then some (.heightNotFound h)
          else some (.transport m.message s!"code={code}, message={text}")
      | none => some (.transport m.message s!"code={code}, message={text}")
  | .failed text => some (.transport m.message text)
  | .lapsed => some (.timeout m.message)
  | .silent => some (.timeout m.message)

/-- How an exchange is counted. -/
def Exchange.outcome (m : Method) (height : Option Nat) (x : Exchange) : CallOutcome :=
  match x.rpcError m height with
  | none => .answered
  | some (.heightNotFound _) => .aboveHead
  | some (.timeout _) => .timedOut
  | some _ => .failed

/-- A connection to a node. -/
structure NodeClient where
  /-- The address. -/
  endpoint : String
  /-- The limits. -/
  options : NodeOptions
  /-- The counters. -/
  metrics : NodeMetrics := {}
  deriving DecidableEq, Repr

namespace NodeClient

/-- A connection to an address, unless a limit is nothing or the address is of no use. -/
def make (endpoint : String) (options : NodeOptions) : Except Failure NodeClient :=
  match options.fault? with
  | some text => .error (Failure.ofText text)
  | none =>
      if Endpoint.isUsable endpoint then .ok { endpoint := endpoint, options := options }
      else .error (Failure.ofText "failed to build RPC client")

/-- A connection for a configuration: its address, and limits for its number of workers. -/
def ofConfig (c : Config) : Except Failure NodeClient :=
  make c.params.remote (NodeOptions.forSlots c.params.maxSlots c.params.rpcTimeout)

/-- A connection for a runner, which says for which address it could not be made. -/
def forRunner (c : Config) : Except Failure NodeClient :=
  (ofConfig c).mapError fun f => f.context s!"failed to build RPC client for {c.params.remote}"

/-- Counts a call and gives its value to `read`. -/
def conclude {α : Type} (c : NodeClient) (m : Method) (height : Option Nat) (x : Exchange)
    (latency : Nat)
    (read : Json → Except Failure α) : Except Failure α × NodeClient :=
  let counted := { c with metrics := c.metrics.record (x.outcome m height) latency }
  match x, x.rpcError m height with
  | .answered v, _ => (read v, counted)
  | _, some e => (.error (.ofRpc e), counted)
  | _, none => (.error (.ofText ""), counted)

/-- The failure of an answer about a height that has the wrong shape. -/
def malformed (height : Nat) (reason : String) : Failure := .ofRpc (.inconsistent height reason)

/-- The head of the chain. -/
def latestHeight (c : NodeClient) (x : Exchange) (latency : Nat) :
    Except Failure Nat × NodeClient :=
  c.conclude .status none x latency fun v =>
    (NodeStatus.ofJson v).mapError fun e =>
      .ofText s!"failed to decode status response: {e.message}"

/-- The block that an answer denotes; the whole answer is kept with it. -/
def readBlock (height : Nat) (v : Json) : Except Failure Block := do
  let answer ← (NodeBlock.ofJson v).mapError fun e =>
    malformed height s!"malformed block response: {e.message}"
  let txs ← (decodeTxs answer.txs).mapError fun f => malformed height f.message
  return {
    height := answer.header.height
    hash := answer.hash.getD ""
    chainId := answer.header.chainId
    time := answer.header.time
    txs := txs
    raw := v }

/-- The block of a height. -/
def block (c : NodeClient) (height : Nat) (x : Exchange) (latency : Nat) :
    Except Failure Block × NodeClient :=
  c.conclude .block (some height) x latency (readBlock height)

/-- The outcomes of the transactions of a height. -/
def blockResults (c : NodeClient) (height : Nat) (x : Exchange) (latency : Nat) :
    Except Failure BlockResults × NodeClient :=
  c.conclude .blockResults (some height) x latency fun v =>
    (NodeResults.ofJson v).mapError fun e =>
      malformed height s!"malformed block_results response: {e.message}"

end NodeClient

/-! ### The wire -/

/-- What is asked of a node. -/
structure Request where
  /-- The method. -/
  method : Method
  /-- The height, for methods that are about one. -/
  height : Option Nat
  deriving DecidableEq, Repr

namespace Request

/-- The parameters: a height is sent as decimal text. -/
def params? (r : Request) : Option (List String) := r.height.map fun h => [toString h]

/-- How many bytes the request takes as the call with number `id`. -/
def byteLength (r : Request) (id : Nat) : Nat :=
  -- The fixed members take 35 bytes, the parameters 14 more with their brackets and quotes.
  35 + (toString id).length + r.method.message.length
    + (match r.height with
        | some h => 14 + (toString h).length
        | none => 0)

end Request

/-- What comes back from a node. -/
inductive NodeReply where
  /-- A value, in an answer of so many bytes. -/
  | result (v : Json) (bytes : Nat)
  /-- An error. -/
  | error (code : Int) (text : String) (bytes : Nat)
  /-- A status of the web protocol instead of an answer. -/
  | status (code : Nat)
  /-- Nothing. -/
  | hang
  /-- There is no connection. -/
  | unreachable

namespace NodeClient

/-- Whether a request is short enough to be sent. -/
def canSend (c : NodeClient) (r : Request) (id : Nat) : Bool :=
  r.byteLength id ≤ min c.options.maxRequestBodyBytes 0xffffffff

/-- How a call ends, given what comes back for it. -/
def send (c : NodeClient) (r : Request) (id : Nat) (reply : NodeReply) : Exchange :=
  let limit := min c.options.maxResponseBodyBytes 0xffffffff
  if !c.canSend r id then .failed "The request body was too large"
  else
    match reply with
    | .result v bytes => if limit < bytes then .failed "The HTTP message was too big"
        else .answered v
    | .error code text bytes =>
        if limit < bytes then .failed "The HTTP message was too big" else .refused code text
    | .status code => .failed s!"Request rejected `{code}`"
    | .hang => .silent
    | .unreachable => .failed "client error (Connect)"

/-- How long a call takes: no time at all, or the whole deadline if nothing comes back.  The
connection waits as long as the call. -/
def latency (c : NodeClient) : Exchange → Nat
  | .lapsed => c.options.requestTimeout
  | .silent => c.options.requestTimeout
  | _ => 0

end NodeClient

end BlockIngest
