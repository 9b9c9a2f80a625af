import BlockIngest.Node.Metrics
import BlockIngest.Pipeline.Report
import BlockIngest.Text.Hex
import BlockIngest.Trial.Machine

/-!
# What a trial shows

The parts of the pipeline as JSON, for those who watch a trial.  A range is written as its two ends,
and a double by the hexadecimal digits of its bits, so that nothing of it is lost.

## Main definitions

* `Trial.View.range`, `Trial.View.event`, `Trial.View.popped` — what passes through the pipeline.
* `Trial.View.planner`, `Trial.View.buffer`, `Trial.View.telemetry`, `Trial.View.store`,
  `Trial.View.metrics` — the states of its parts.
* `Trial.View.line`, `Trial.View.write`, `Trial.View.call` — what is logged.
-/

namespace BlockIngest

namespace Trial

namespace View

/-- A number that may be absent. -/
def natOrNull (n : Option Nat) : Json := .ofOption (n.map .nat)

/-- The bits of a double in hexadecimal. -/
def double (x : Float) : Json :=
  let n := x.toBits.toNat
  .str (String.ofList ((List.range 16).map fun i => Text.hexDigit (n / Nat.pow 16 (15 - i) % 16)))

/-- A range. -/
def range (r : ChunkRange) : Json := .arr [.nat r.first, .nat r.last]

/-- An event. -/
def event (e : Event) : Json :=
  let shared := [("topic", Json.str e.topic.message), ("height", Json.nat e.height)]
  match e with
  | .block b => Json.object (shared ++ [("hash", .str b.hash)])
  | .transaction t => Json.object (shared ++ [("hash", .str t.hash), ("index", .nat t.index)])

/-- A chunk that was taken out of the buffer. -/
def popped (c : CompletedChunk) : Json :=
  Json.object [("range", range c.range), ("txs", .nat c.txCount)]

/-! ### States -/

/-- A planner. -/
def planner (p : Planner) : Json :=
  Json.object [("cursor", .nat p.cursor), ("head", natOrNull p.head),
    ("regressed", .bool p.regressed),
    ("claimed", .arr (p.claimed.values.map range)),
    ("released", .arr (p.released.values.map range))]

/-- A buffer. -/
def buffer (b : Buffer) : Json :=
  Json.object [("len", .nat b.size), ("empty", .bool b.chunks.isEmpty),
    ("next_commit", .nat b.nextCommit)]

/-- The counters of the pipeline. -/
def telemetry (t : Telemetry) : Json :=
  Json.object [("committed_heights", .nat t.committedHeights),
    ("committed_txs", .nat t.committedTxs),
    ("fetched_chunks", .nat t.fetchedChunks), ("released_chunks", .nat t.releasedChunks),
    ("fetch_errors", .nat t.fetchErrors), ("fetch_timeouts", .nat t.fetchTimeouts),
    ("storage_retries", .nat t.storageRetries), ("events_published", .nat t.eventsPublished)]

/-- A store. -/
def store (s : Store) : Json :=
  Json.object [("heights", .arr (s.heights.map .nat)), ("latest", natOrNull s.latestHeight),
    ("tx_count", .nat s.txCount), ("block_writes", .nat s.blockWrites),
    ("tx_writes", .nat s.txWrites)]

/-- The counters of a connection. -/
def metrics (m : NodeMetrics) : Json :=
  Json.object [("total_requests", .nat m.calls), ("total_errors", .nat m.errors),
    ("total_timeouts", .nat m.timeouts), ("total_not_found", .nat m.aboveHead),
    ("average_latency_ms", double m.averageLatencyMs), ("max_latency_ms", double m.maxLatencyMs),
    ("error_rate", double m.errorRate)]

/-! ### Logs -/

/-- A line of the reporter. -/
def line : ReportLine → Json
  | .stopped => Json.object [("level", .str "DEBUG"), ("message", .str "metrics reporter stopped")]
  | .metrics r =>
      let t := r.telemetry
      Json.object [("level", .str "INFO"), ("message", .str "ingestion metrics"),
        ("heights_per_sec", .str r.heightsPerSec), ("committed", .nat t.committedHeights),
        ("committed_txs", .nat t.committedTxs), ("next_commit", .nat r.nextCommit),
        ("head", .str r.head),
        ("buffered_chunks", .nat r.bufferedChunks), ("claimed_chunks", .nat r.claimedChunks),
        ("released_chunks", .nat t.releasedChunks), ("fetch_errors", .nat t.fetchErrors),
        ("fetch_timeouts", .nat t.fetchTimeouts), ("storage_retries", .nat t.storageRetries),
        ("events_published", .nat t.eventsPublished)]

/-- A write. -/
def write (w : LoggedWrite) : List Json :=
  [.str w.access.message, .nat w.height, natOrNull w.index, .bool w.succeeded]

/-- A write, with its time in milliseconds. -/
def timedWrite (w : LoggedWrite) : List Json := .nat (Duration.toMillis w.time) :: write w

/-- A call about a height. -/
def call (c : Call × Nat) : Json := .arr [.str c.1.message, .nat c.2]

end View

end Trial

end BlockIngest
