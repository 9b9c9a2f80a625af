import BlockIngest.Duration
import BlockIngest.Height
import BlockIngest.Retry
import BlockIngest.Text.Blank

/-!
# Configuration

A configuration is checked when it is made: the node's address and the path of the store without the
blanks around them, and that every count and every span is more than nothing.  Fields that are not
set have defaults; the number of buffered chunks follows the number of slots.

## Main definitions

* `Config.Params`, `Config.make` — all values, and the configuration of values that pass all checks.
* `Config.Settings`, `Config.build` — some of the values, the others being defaults.
* `Config.Fault` — why values are refused; of several faults the first in the order of the checks is
  reported.
* `Config.fetchRetry`, `Config.storageRetry` — the policies of fetching and storing.
-/

namespace BlockIngest

namespace Config

/-- Attempts and pauses of one kind of operation. -/
structure RetryParams where
  /-- How many attempts are made. -/
  maxAttempts : Nat
  /-- The first pause. -/
  initialBackoff : Nat
  /-- The longest pause. -/
  maxBackoff : Nat
  deriving DecidableEq, Repr

/-- All values of a configuration. -/
structure Params where
  /-- The address of the node. -/
  remote : String
  /-- The path of the store. -/
  dbPath : String
  /-- How many workers fetch at once. -/
  maxSlots : Nat
  /-- How many heights a chunk may hold. -/
  maxChunkSize : Nat
  /-- How many chunks may wait for the store. -/
  maxBufferedChunks : Nat
  /-- How long the node may take to answer. -/
  rpcTimeout : Nat
  /-- How long a worker waits when there is nothing to fetch. -/
  idleBackoff : Nat
  /-- How often the chain head is asked for. -/
  headRefreshInterval : Nat
  /-- How often the counters are reported. -/
  metricsInterval : Nat
  /-- How fetching is retried. -/
  fetch : RetryParams
  /-- How storing is retried. -/
  storage : RetryParams
  deriving DecidableEq, Repr

/-- Why values are refused. -/
inductive Fault where
  /-- No address is given. -/
  | remoteMissing
  /-- The address does not begin as a web address does. -/
  | remoteScheme
  /-- The path is empty. -/
  | pathEmpty
  /-- A count or span is zero. -/
  | zero (field : String)
  /-- The first pause of this operation is longer than its longest one. -/
  | backoffOrder (operation : String)
  deriving DecidableEq, Repr

/-- The wording of a refusal. -/
def Fault.message : Fault → String
  | .remoteMissing => "remote is required"
  | .remoteScheme => "remote must start with http:// or https://"
  | .pathEmpty => "db_path cannot be empty"
  | .zero field => s!"{field} must be greater than 0"
  | .backoffOrder operation =>
      s!"{operation}_initial_backoff must not exceed {operation}_max_backoff"

/-- The first fault in how an operation is retried. -/
def RetryParams.fault? (operation : String) (p : RetryParams) : Option Fault :=
  if p.maxAttempts = 0 then some (.zero s!"{operation}_max_attempts")
  else if p.initialBackoff = 0 then some (.zero s!"{operation}_initial_backoff")
  else if p.maxBackoff = 0 then some (.zero s!"{operation}_max_backoff")
  else if p.maxBackoff < p.initialBackoff then some (.backoffOrder operation)
  else none

/-- The values without the blanks around the address and the path. -/
def Params.trimmed (p : Params) : Params :=
  { p with remote := Text.trim p.remote, dbPath := Text.trim p.dbPath }

/-- Whether an address begins as a web address does. -/
def isWebAddress (remote : String) : Bool :=
  "http://".toList.isPrefixOf remote.toList || "https://".toList.isPrefixOf remote.toList

/-- The first fault of values that were trimmed. -/
def Params.fault? (p : Params) : Option Fault :=
  if !isWebAddress p.remote then some .remoteScheme
  else if p.dbPath.isEmpty then some .pathEmpty
  else if p.maxSlots = 0 then some (.zero "max_slots")
  else if p.maxChunkSize = 0 then some (.zero "max_chunk_size")
  else if p.maxBufferedChunks = 0 then some (.zero "max_buffered_chunks")
  else if p.rpcTimeout = 0 then some (.zero "rpc_timeout")
  else if p.idleBackoff = 0 then some (.zero "idle_backoff")
  else if p.headRefreshInterval = 0 then some (.zero "head_refresh_interval")
  else if p.metricsInterval = 0 then some (.zero "metrics_interval")
  else (p.fetch.fault? "fetch").or (p.storage.fault? "storage")

end Config

/-- Values that pass all checks. -/
structure Config where
  /-- The values. -/
  params : Config.Params
  /-- No check fails. -/
  valid : params.fault? = none

namespace Config

/-- There is a slot for a worker. -/
theorem maxSlots_pos (c : Config) : 0 < c.params.maxSlots := by
  have valid := c.valid
  grind [Params.fault?]

/-- The largest chunk has room for a height. -/
theorem maxChunkSize_pos (c : Config) : 0 < c.params.maxChunkSize := by
  have valid := c.valid
  grind [Params.fault?]

/-- The buffer has room for a chunk. -/
theorem maxBufferedChunks_pos (c : Config) : 0 < c.params.maxBufferedChunks := by
  have valid := c.valid
  grind [Params.fault?]

/-- The configuration with these values, trimmed, or the first fault. -/
def make (p : Params) : Except Fault Config :=
  match h : p.trimmed.fault? with
  | some fault => .error fault
  | none => .ok ⟨p.trimmed, h⟩

/-- The values that are set; the others take their defaults. -/
structure Settings where
  /-- The address of the node; it has no default. -/
  remote : Option String := none
  /-- The path of the store. -/
  dbPath : Option String := none
  /-- How many workers fetch at once. -/
  maxSlots : Option Nat := none
  /-- How many heights a chunk may hold. -/
  maxChunkSize : Option Nat := none
  /-- How many chunks may wait for the store. -/
  maxBufferedChunks : Option Nat := none
  /-- How long the node may take to answer. -/
  rpcTimeout : Option Nat := none
  /-- How long a worker waits when there is nothing to fetch. -/
  idleBackoff : Option Nat := none
  /-- How often the chain head is asked for. -/
  headRefreshInterval : Option Nat := none
  /-- How often the counters are reported. -/
  metricsInterval : Option Nat := none
  /-- How many attempts are made to fetch a chunk. -/
  fetchMaxAttempts : Option Nat := none
  /-- First and longest pause of fetching. -/
  fetchBackoff : Option (Nat × Nat) := none
  /-- How many attempts are made to store a height. -/
  storageMaxAttempts : Option Nat := none
  /-- First and longest pause of storing. -/
  storageBackoff : Option (Nat × Nat) := none

/-- The number of slots if none is set. -/
def defaultSlots : Nat := 100

/-- The values with defaults filled in.  Two chunks are buffered for each slot, as far as a word can
count. -/
def Settings.params (s : Settings) (remote : String) : Params :=
  let slots := s.maxSlots.getD defaultSlots
  let (fetchInitial, fetchLongest) :=
    s.fetchBackoff.getD (Duration.ofMillis 250, Duration.ofSeconds 2)
  let (storageInitial, storageLongest) :=
    s.storageBackoff.getD (Duration.ofMillis 100, Duration.ofSeconds 5)
  { remote := remote
    dbPath := s.dbPath.getD "indexer-db"
    maxSlots := slots
    maxChunkSize := s.maxChunkSize.getD 100
    maxBufferedChunks := s.maxBufferedChunks.getD (min (2 * slots) Height.top)
    rpcTimeout := s.rpcTimeout.getD (Duration.ofSeconds 10)
    idleBackoff := s.idleBackoff.getD (Duration.ofSeconds 1)
    headRefreshInterval := s.headRefreshInterval.getD (Duration.ofSeconds 1)
    metricsInterval := s.metricsInterval.getD (Duration.ofSeconds 5)
    fetch := ⟨s.fetchMaxAttempts.getD 3, fetchInitial, fetchLongest⟩
    storage := ⟨s.storageMaxAttempts.getD 5, storageInitial, storageLongest⟩ }

/-- The configuration with what is set, and defaults for the rest. -/
def build (s : Settings) : Except Fault Config :=
  match s.remote with
  | none => .error .remoteMissing
  | some remote => make (s.params remote)

/-- The policy of an operation. -/
def RetryParams.policy (p : RetryParams) : Retry.Policy :=
  ⟨p.initialBackoff, p.maxBackoff, some p.maxAttempts⟩

/-- How fetching is retried. -/
def fetchRetry (c : Config) : Retry.Policy := c.params.fetch.policy

/-- How storing is retried. -/
def storageRetry (c : Config) : Retry.Policy := c.params.storage.policy

end Config

end BlockIngest
