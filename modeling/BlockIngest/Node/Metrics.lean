import BlockIngest.Counter
import BlockIngest.Height

/-!
# Counters of the connection

Every call to the node is counted, with how it ended and how long it took.  The sum of all latencies
is a counter, too; a single latency that does not fit one counts as the largest word.

## Main definitions

* `CallOutcome` — how a call ended.
* `NodeMetrics`, `NodeMetrics.record` — the counters, and a further call.
* `NodeMetrics.averageLatencyMs`, `NodeMetrics.maxLatencyMs`, `NodeMetrics.errorRate` — what follows
  from them.
-/

namespace BlockIngest

/-- How a call ended. -/
inductive CallOutcome where
  /-- The node answered. -/
  | answered
  /-- The node answered that it has no such height yet; that is no error. -/
  | aboveHead
  /-- The node did not answer in time. -/
  | timedOut
  /-- The call failed in any other way. -/
  | failed
  deriving DecidableEq, Repr

/-- The counters. -/
structure NodeMetrics where
  /-- Calls. -/
  calls : Nat := 0
  /-- Calls that timed out or failed. -/
  errors : Nat := 0
  /-- Calls that timed out. -/
  timeouts : Nat := 0
  /-- Calls about heights that the node does not have yet. -/
  aboveHead : Nat := 0
  /-- The sum of all latencies in nanoseconds. -/
  latency : Nat := 0
  /-- The longest latency in nanoseconds. -/
  slowest : Nat := 0
  deriving DecidableEq, Repr, Inhabited

namespace NodeMetrics

/-- Counts a call. -/
def record (m : NodeMetrics) (outcome : CallOutcome) (latency : Nat) : NodeMetrics :=
  let latency := min latency Height.top
  let m := { m with
    calls := Counter.bump m.calls 1
    latency := Counter.bump m.latency latency
    slowest := max m.slowest latency }
  match outcome with
  | .answered => m
  | .aboveHead => { m with aboveHead := Counter.bump m.aboveHead 1 }
  | .timedOut => { m with errors := Counter.bump m.errors 1, timeouts := Counter.bump m.timeouts 1 }
  | .failed => { m with errors := Counter.bump m.errors 1 }

/-- A sum divided by the number of calls; without calls it is zero. -/
def perCall (m : NodeMetrics) (total : Nat) : Float :=
  if m.calls = 0 then 0.0 else total.toUInt64.toFloat / m.calls.toUInt64.toFloat

/-- The average latency in milliseconds. -/
def averageLatencyMs (m : NodeMetrics) : Float := m.perCall m.latency / 1000000.0

/-- The longest latency in milliseconds. -/
def maxLatencyMs (m : NodeMetrics) : Float := m.slowest.toUInt64.toFloat / 1000000.0

/-- The share of calls that timed out or failed. -/
def errorRate (m : NodeMetrics) : Float := m.perCall m.errors

end NodeMetrics

end BlockIngest
