/-!
# Failures

A failure is a chain of causes: the outermost says what was being done, each further one says why it
went wrong.  Some causes carry data by which callers tell failures apart.  A caller looks for such a
cause only as far down as the chain consists of context: below a cause that stands for a whole
failure of its own it does not look.

## Main definitions

* `RpcError` — how a call to the node fails.
* `StorageOp`, `StorageError` — a write, and a height whose writes were given up.
* `FatalOrigin` — which part of the pipeline gave up.
* `Cause`, `Failure` — one link of a chain, and a chain.
* `Failure.rpcError?`, `Failure.storageOp?` — the data that callers look for.
* `Failure.message` — the whole chain as one text.
-/

namespace BlockIngest

/-- How a call to the node fails. -/
inductive RpcError where
  /-- No answer came in time. -/
  | timeout (method : String)
  /-- The node has no block of this height yet. -/
  | heightNotFound (height : Nat)
  /-- The answer contradicts itself or the question. -/
  | inconsistent (height : Nat) (reason : String)
  /-- The call failed in any other way. -/
  | transport (method : String) (text : String)
  deriving DecidableEq, Repr

/-- The wording of a failed call. -/
def RpcError.message : RpcError → String
  | .timeout method => s!"rpc method {method} timed out"
  | .heightNotFound height => s!"requested height {height} is above the chain head"
  | .inconsistent height reason => s!"inconsistent response for height {height}: {reason}"
  | .transport method text => s!"rpc {method} call failed: {text}"

/-- A write of one record of a height. -/
inductive StorageOp where
  /-- The block. -/
  | saveBlock
  /-- The transaction at this index. -/
  | saveTx (index : Nat)
  deriving DecidableEq, Repr

/-- The name of a write. -/
def StorageOp.message : StorageOp → String
  | .saveBlock => "save_block"
  | .saveTx index => s!"save_tx (index {index})"

/-- A height that could not be written after every attempt was spent. -/
structure StorageError where
  /-- The write that failed last. -/
  op : StorageOp
  /-- The height. -/
  height : Nat
  /-- How many attempts were made. -/
  attempts : Nat
  deriving DecidableEq, Repr

/-- The wording of a height that was given up. -/
def StorageError.message (e : StorageError) : String :=
  s!"height {e.height} not stored after {e.attempts} attempt(s)"

/-- Which part of the pipeline gave up. -/
inductive FatalOrigin where
  /-- Every attempt to write this height failed. -/
  | storage (height : Nat)
  /-- A task ended that must not end. -/
  | task (context : String)
  deriving DecidableEq, Repr

/-- The wording of an origin. -/
def FatalOrigin.message : FatalOrigin → String
  | .storage _ => "storage write exhausted its retries"
  | .task context => context

/-- One link of a chain of causes. -/
inductive Cause where
  /-- A text without data. -/
  | text (s : String)
  /-- A failed call to the node. -/
  | rpc (e : RpcError)
  /-- The write that was under way. -/
  | write (op : StorageOp)
  /-- A height that was given up; why is said by the causes below. -/
  | storage (e : StorageError)
  /-- The part of the pipeline that gave up; why is said by the causes below. -/
  | fatal (origin : FatalOrigin)
  deriving DecidableEq, Repr

/-- The wording of one cause. -/
def Cause.message : Cause → String
  | .text s => s
  | .rpc e => e.message
  | .write op => op.message
  | .storage e => e.message
  | .fatal origin => origin.message

/-- A chain of causes, outermost first. -/
structure Failure where
  /-- What failed. -/
  top : Cause
  /-- Why, each cause explained by the next. -/
  sources : List Cause
  deriving DecidableEq, Repr

namespace Failure

/-- A failure without further explanation. -/
def ofCause (c : Cause) : Failure := ⟨c, []⟩

/-- A failure that is only a text. -/
def ofText (s : String) : Failure := ofCause (.text s)

/-- A failed call to the node. -/
def ofRpc (e : RpcError) : Failure := ofCause (.rpc e)

/-- Says on top what was being done. -/
def under (f : Failure) (c : Cause) : Failure := ⟨c, f.top :: f.sources⟩

/-- Says in words what was being done. -/
def context (f : Failure) (s : String) : Failure := f.under (.text s)

/-- All causes, outermost first. -/
def chain (f : Failure) : List Cause := f.top :: f.sources

/-- The failed call below nothing but context. -/
def rpcErrorIn : List Cause → Option RpcError
  | .rpc e :: _ => some e
  | .text _ :: rest => rpcErrorIn rest
  | .write _ :: rest => rpcErrorIn rest
  | _ => none

/-- The write named in nothing but context. -/
def storageOpIn : List Cause → Option StorageOp
  | .write op :: _ => some op
  | .text _ :: rest => storageOpIn rest
  | _ => none

/-- The failed call that a failure is about, if it is about one. -/
def rpcError? (f : Failure) : Option RpcError := rpcErrorIn f.chain

/-- The write that a failure is about, if it is about one. -/
def storageOp? (f : Failure) : Option StorageOp := storageOpIn f.chain

/-- The whole chain as one text. -/
def message (f : Failure) : String := ": ".intercalate (f.chain.map Cause.message)

/-- What a failure is, by the first cause that carries data. -/
inductive Kind where
  /-- A failed call to the node. -/
  | rpc (e : RpcError)
  /-- A height that was given up. -/
  | storage (e : StorageError)
  /-- Nothing that carries data. -/
  | other
  deriving DecidableEq, Repr

/-- The kind of a chain. -/
def kindOf : List Cause → Kind
  | [] => .other
  | .rpc e :: _ => .rpc e
  | .storage e :: _ => .storage e
  | _ :: rest => kindOf rest

/-- The kind of a failure, looked for in the whole chain. -/
def kind (f : Failure) : Kind := kindOf f.chain

end Failure

end BlockIngest
