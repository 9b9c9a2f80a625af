import BlockIngest.Counter
import BlockIngest.Duration

/-!
# What is counted

The pipeline counts what it does in eight counters.  From two
readings of the counters follows the rate at which heights are committed.

## Main definitions

* `Telemetry` — the counters.
* `Telemetry.committed`, `Telemetry.fetchTimeout`, … — what is counted.
* `Telemetry.commitRate` — heights per second.
-/

namespace BlockIngest

/-- The counters. -/
structure Telemetry where
  /-- Heights committed. -/
  committedHeights : Nat := 0
  /-- Transactions of committed heights. -/
  committedTxs : Nat := 0
  /-- Chunks handed to the buffer. -/
  fetchedChunks : Nat := 0
  /-- Chunks given back to be fetched again. -/
  releasedChunks : Nat := 0
  /-- Failed attempts to fetch a chunk. -/
  fetchErrors : Nat := 0
  /-- Those among them in which the node did not answer in time. -/
  fetchTimeouts : Nat := 0
  /-- Failed attempts to store a height that were followed by another one. -/
  storageRetries : Nat := 0
  /-- Events published. -/
  eventsPublished : Nat := 0
  deriving DecidableEq, Repr, Inhabited

namespace Telemetry

/-- Heights and their transactions were committed. -/
def committed (t : Telemetry) (heights txs : Nat) : Telemetry :=
  { t with
    committedHeights := Counter.bump t.committedHeights heights
    committedTxs := Counter.bump t.committedTxs txs }

/-- A chunk was handed to the buffer. -/
def fetchedChunk (t : Telemetry) : Telemetry :=
  { t with fetchedChunks := Counter.bump t.fetchedChunks 1 }

/-- A chunk was given back. -/
def releasedChunk (t : Telemetry) : Telemetry :=
  { t with releasedChunks := Counter.bump t.releasedChunks 1 }

/-- An attempt to fetch a chunk failed. -/
def fetchError (t : Telemetry) : Telemetry := { t with fetchErrors := Counter.bump t.fetchErrors 1 }

/-- An attempt to fetch a chunk failed because the node did not answer in time; that is a failed
attempt too. -/
def fetchTimeout (t : Telemetry) : Telemetry :=
  { t with
    fetchTimeouts := Counter.bump t.fetchTimeouts 1
    fetchErrors := Counter.bump t.fetchErrors 1 }

/-- An attempt to store a height failed, and another one follows. -/
def storageRetry (t : Telemetry) : Telemetry :=
  { t with storageRetries := Counter.bump t.storageRetries 1 }

/-- Events were published. -/
def published (t : Telemetry) (count : Nat) : Telemetry :=
  { t with eventsPublished := Counter.bump t.eventsPublished count }

/-- The smallest distance between one and a larger double; shorter spans count as no time at all. -/
def minSeconds : Float := Float.ofBits 0x3CB0000000000000

/-- Heights committed per second since an earlier reading, which was taken `elapsed` ago. -/
def commitRate (t earlier : Telemetry) (elapsed : Nat) : Float :=
  let seconds := Duration.seconds elapsed
  if seconds ≤ minSeconds then 0.0
  else (t.committedHeights - earlier.committedHeights).toUInt64.toFloat / seconds

end Telemetry

end BlockIngest
