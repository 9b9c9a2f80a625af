import BlockIngest.Trial.Fixture

/-!
# A scripted chain

A node for trials.  Its blocks are invented, and a script says where it answers late, wrongly, with
an error, or not at all.

## Main definitions

* `Trial.Answer` — how a call is answered.
* `Trial.sortCalls` — calls in an order that does not depend on who made them.
* `Trial.Call`, `Trial.Fault`, `Trial.FaultKind` — which calls go wrong, and how.
* `Trial.Chain` — the script.
* `Trial.Chain.askHead`, `Trial.Chain.askBlock`, `Trial.Chain.askResults` — the three calls.
-/

namespace BlockIngest

namespace Trial

/-- How a call is answered. -/
inductive Answer (α : Type) where
  /-- With a value, some time later or at once. -/
  | comes (later : Nat) (a : α)
  /-- The call breaks off. -/
  | breaks (text : String)
  /-- Not at all. -/
  | never

/-- The calls about a height. -/
inductive Call where
  /-- For its block. -/
  | block
  /-- For the outcomes of its transactions. -/
  | results
  deriving DecidableEq, Repr

/-- The name under which a call is logged. -/
def Call.message : Call → String
  | .block => "block"
  | .results => "results"

/-- The node's method behind a call. -/
def Call.method : Call → String
  | .block => "block"
  | .results => "block_results"

/-- Calls in the order of their heights, and at one height in the order of their names. -/
def sortCalls (calls : List (Call × Nat)) : List (Call × Nat) :=
  calls.mergeSort fun a b => decide (a.2 < b.2 ∨ a.2 = b.2 ∧ a.1.message ≤ b.1.message)

/-- How a call breaks off. -/
inductive Payload where
  /-- With a text that is always the same. -/
  | fixed
  /-- With a text about the height. -/
  | aboutHeight
  /-- With something that is no text. -/
  | other
  deriving DecidableEq, Repr

/-- The words of a call that breaks off. -/
def Payload.message (height : Nat) : Payload → String
  | .fixed => "static panic"
  | .aboutHeight => s!"block {height} exploded"
  | .other => "unknown panic payload"

/-- How a call goes wrong. -/
inductive FaultKind where
  /-- The connection fails. -/
  | transport (message : String)
  /-- The node does not answer in time. -/
  | timeout
  /-- The node has no block of the height `missing`, or else of the height that was asked for. -/
  | notFound (missing : Option Nat)
  /-- The answer contradicts itself. -/
  | inconsistent (message : String)
  /-- An error that callers do not know. -/
  | other (message : String)
  /-- The node has no block of the height, which is said in other words. -/
  | wrappedNotFound (message : String)
  /-- The call breaks off. -/
  | panic (payload : Payload)
  /-- No answer. -/
  | hang
  /-- A late answer. -/
  | delay (later : Nat)
  /-- An answer about another height. -/
  | wrongHeight (height : Nat)
  /-- An answer with another number of transactions. -/
  | wrongCount (txs : Nat)
  deriving DecidableEq, Repr

/-- A fault in the script. -/
structure Fault where
  /-- The call that goes wrong. -/
  call : Call
  /-- The height. -/
  height : Nat
  /-- How often; without a number, always. -/
  left : Option Nat
  /-- How it goes wrong. -/
  kind : FaultKind
  deriving DecidableEq, Repr

/-- How many times a fault with `left` uses can still be used, after one more use. -/
def useUp (left : Option Nat) : Option Nat := left.map (· - 1)

/-- The first fault that matches and has uses left, with one use of it used up. -/
def takeFirst? {α : Type} (fits : α → Bool) (left : α → Option Nat) (used : α → α) :
    List α → Option (α × List α)
  | [] => none
  | f :: fs =>
      if fits f ∧ left f ≠ some 0 then some (f, used f :: fs)
      else (takeFirst? fits left used fs).map fun (g, fs) => (g, f :: fs)

/-- How many transactions a height has. -/
inductive TxRule where
  /-- The same number for every height. -/
  | fixed (n : Nat)
  /-- What is left of the height when it is divided by `m`. -/
  | modulo (m : Nat)
  deriving DecidableEq, Repr

/-- The number of transactions of a height. -/
def TxRule.count : TxRule → Nat → Nat
  | .fixed n, _ => n
  | .modulo m, height => height % m

/-- A scripted chain. -/
structure Chain where
  /-- The head that the node reports. -/
  head : Nat
  /-- The highest height that it serves. -/
  available : Nat
  /-- How many transactions its blocks have. -/
  txs : TxRule
  /-- What it answers first when it is asked for its head. -/
  heads : List (Answer (Except Failure Nat))
  /-- Which calls go wrong. -/
  faults : List Fault

namespace Chain

/-- Asks for the head. -/
def askHead (c : Chain) : Answer (Except Failure Nat) × Chain :=
  match c.heads with
  | answer :: rest => (answer, { c with heads := rest })
  | [] => (.comes 0 (.ok c.head), c)

/-- Uses the first fault for a call up, if there is one. -/
def takeFault (c : Chain) (call : Call) (height : Nat) : Option FaultKind × Chain :=
  let fits := fun f : Fault => decide (f.call = call ∧ f.height = height)
  match takeFirst? fits Fault.left (fun f => { f with left := useUp f.left }) c.faults with
  | some (f, faults) => (some f.kind, { c with faults := faults })
  | none => (none, c)

/-- The answer to a call about a height.  `fixture` invents the right kind of answer. -/
def answer {α : Type} (c : Chain) (call : Call) (height : Nat) (fixture : Nat → Nat → α)
    (fault : Option FaultKind) :
    Answer (Except Failure α) :=
  let missing (h : Nat) : Failure := .ofRpc (.heightNotFound h)
  let served (a : α) : Except Failure α :=
    if height ≤ c.available then .ok a else .error (missing height)
  let count := c.txs.count height
  let fails (f : Failure) : Answer (Except Failure α) := .comes 0 (.error f)
  match fault with
  | none => .comes 0 (served (fixture height count))
  | some (.transport message) => fails (.ofRpc (.transport call.method message))
  | some .timeout => fails (.ofRpc (.timeout call.method))
  | some (.notFound h) => fails (missing (h.getD height))
  | some (.inconsistent message) => fails (.ofRpc (.inconsistent height message))
  | some (.other message) => fails (.ofText message)
  | some (.wrappedNotFound message) => fails ((missing height).context message)
  | some (.panic payload) => .breaks (payload.message height)
  | some .hang => .never
  | some (.delay later) => .comes later (served (fixture height count))
  | some (.wrongHeight h) => .comes 0 (served (fixture h count))
  | some (.wrongCount txs) => .comes 0 (served (fixture height txs))

/-- Asks for a block. -/
def askBlock (c : Chain) (height : Nat) : Answer (Except Failure Block) × Chain :=
  let (fault, c) := c.takeFault .block height
  (c.answer .block height block fault, c)

/-- Asks for the outcomes of the transactions of a height. -/
def askResults (c : Chain) (height : Nat) : Answer (Except Failure BlockResults) × Chain :=
  let (fault, c) := c.takeFault .results height
  (c.answer .results height results fault, c)

/-- The script goes on with another head, another highest height, and further faults. -/
def change (c : Chain) (head available : Option Nat) (faults : List Fault) : Chain :=
  { c with
    head := head.getD c.head
    available := available.getD (head.getD c.available)
    faults := c.faults ++ faults }

end Chain

end Trial

end BlockIngest
