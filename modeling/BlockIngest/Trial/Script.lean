import BlockIngest.Config
import BlockIngest.Trial.Attempts
import BlockIngest.Trial.Disk

/-!
# Written scripts

Scripts of trials are written as JSON.  Times are whole milliseconds, except in a configuration,
where they are nanoseconds.  What is left out, or null, takes a default.

## Main definitions

* `Trial.Script.settings` — a configuration.
* `Trial.Script.chain`, `Trial.Script.chainFault` — a scripted chain, and one of its faults.
* `Trial.Script.disk`, `Trial.Script.diskFault` — a faulty store, and one of its faults.
* `Trial.Script.policy`, `Trial.Script.outcomes`, `Trial.Script.cancellation` — a retried operation.
* `Trial.Script.chunk` — an invented chunk.
-/

namespace BlockIngest

namespace Trial

namespace Script

/-- A time in milliseconds. -/
def millis? (v : Json) (name : String) : Option Nat := (v.natField? name).map Duration.ofMillis

/-- A time in milliseconds; zero if it is left out. -/
def millis (v : Json) (name : String) : Nat := (millis? v name).getD 0

/-- An invented chunk: its lowest and highest height, and the number of transactions of each of its
blocks. -/
def chunk (v : Json) : Except String CompletedChunk :=
  match v.items.filterMap Json.nat? with
  | [first, last, txs] => Trial.chunk first last txs
  | _ => .error "a chunk is written as three numbers"

/-! ### Configurations -/

/-- The values of a configuration that are set. -/
def settings (v : Json) : Config.Settings where
  remote := v.textField? "remote"
  dbPath := v.textField? "db_path"
  maxSlots := v.natField? "max_slots"
  maxChunkSize := v.natField? "max_chunk_size"
  maxBufferedChunks := v.natField? "max_buffered_chunks"
  rpcTimeout := v.natField? "rpc_timeout_ns"
  idleBackoff := v.natField? "idle_backoff_ns"
  headRefreshInterval := v.natField? "head_refresh_interval_ns"
  metricsInterval := v.natField? "metrics_interval_ns"
  fetchMaxAttempts := v.natField? "fetch_max_attempts"
  fetchBackoff := (v.field "fetch_backoff_ns").pair?
  storageMaxAttempts := v.natField? "storage_max_attempts"
  storageBackoff := (v.field "storage_backoff_ns").pair?

/-! ### Retrying -/

/-- A policy with a limited number of attempts. -/
def policy (v : Json) : Retry.Policy :=
  ⟨millis v "initial_ms", millis v "max_ms", v.natField? "attempts"⟩

/-- The outcomes of an operation from an attempt on.  A failure that is only a word is told with the
number of the attempt. -/
def outcomesFrom (attempt : Nat) : List Json → List Outcome
  | [] => []
  | v :: vs =>
      let told (word : String) : Failure := (Failure.ofText s!"{word} {attempt}").context "outer"
      let outcome : Outcome := match v with
        | .str "err" => .fails (told "err") false
        | .str "abort" => .fails (told "abort") true
        | .obj _ => .fails (.ofText (v.textField "err")) false
        | _ => .succeeds
      outcome :: outcomesFrom (attempt + 1) vs

/-- The outcomes of an operation. -/
def outcomes (vs : List Json) : List Outcome := outcomesFrom 1 vs

/-- When a retry is cancelled. -/
def cancellation (v : Json) : Cancellation where
  heeded := v.isSet "use_token"
  before := v.isSet "cancel_before"
  inAttempt := v.natField? "cancel_in_operation"
  inReport := v.natField? "cancel_in_retry"
  atTime := millis? v "cancel_at_ms"

/-! ### Chains -/

/-- How a call breaks off. -/
def payload : String → Payload
  | "string" => .aboutHeight
  | "other" => .other
  | _ => .fixed

/-- How a call goes wrong. -/
def faultKind (v : Json) : FaultKind :=
  let message (default : String) := (v.textField? "message").getD default
  match v.textField "kind" with
  | "timeout" => .timeout
  | "not_found" => .notFound (v.natField? "missing")
  | "inconsistent" => .inconsistent (message "bad")
  | "other" => .other (message "other")
  | "wrapped_not_found" => .wrappedNotFound (message "wrapped")
  | "panic" => .panic (payload (v.textField "payload"))
  | "hang" => .hang
  | "delay" => .delay (millis v "ms")
  | "wrong_height" => .wrongHeight (v.natField "value")
  | "wrong_count" => .wrongCount (v.natField "value")
  | _ => .transport (message "connection reset")

/-- A fault of a chain. -/
def chainFault (v : Json) : Fault where
  call := if v.textField "call" = Call.results.message then .results else .block
  height := v.natField "height"
  left := v.natField? "times"
  kind := faultKind v

/-- An answer about the head. -/
def headAnswer (v : Json) : Answer (Except Failure Nat) :=
  match v with
  | .obj _ =>
      if v.isSet "hang" then .never
      else
        .comes (millis v "delay_ms") <|
          match v.textField? "error" with
          | some text => .error (.ofText text)
          | none => .ok (v.natField "head")
  | v => .comes 0 (.ok (v.nat?.getD 0))

/-- How many transactions a height has. -/
def txRule (v : Json) : TxRule :=
  match v with
  | .obj _ => .modulo (v.natField "mod")
  | v => .fixed (v.nat?.getD 0)

/-- A scripted chain; it serves what it reports as its head. -/
def chain (v : Json) : Chain where
  head := v.natField "head"
  available := (v.natField? "available").getD (v.natField "head")
  txs := txRule (v.field "txs")
  heads := (v.listField "heads").map headAnswer
  faults := (v.listField "faults").map chainFault

/-- A change of a chain. -/
def changeChain (v : Json) (c : Chain) : Chain :=
  c.change (v.natField? "head") (v.natField? "available") ((v.listField "faults").map chainFault)

/-! ### Stores -/

/-- What fails in a store. -/
def diskAccess : String → DiskAccess
  | "tx" => .tx
  | "latest" => .latest
  | _ => .block

/-- A fault of a store. -/
def diskFault (v : Json) : DiskFault where
  access := diskAccess (v.textField "write")
  height := v.natField? "height"
  index := v.natField? "index"
  left := v.natField? "times"
  message := (v.textField? "message").getD "disk unavailable"
  context := v.textField? "context"

/-- The faults of a store. -/
def diskFaults (v : Json) : List DiskFault := (v.listField "faults").map diskFault

/-- A faulty store. -/
def disk (v : Json) : Disk := .make (diskFaults v) (v.natField? "cancel_on_write")

end Script

end Trial

end BlockIngest
