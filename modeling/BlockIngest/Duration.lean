/-!
# Durations

A span of time is a natural number of nanoseconds.  The longest span that can be written down is
`2 ^ 64 - 1` seconds and `999 999 999` nanoseconds; doubling stops there.

## Main definitions

* `Duration.longest` — the longest span.
* `Duration.double` — twice as long, at most the longest span.
* `Duration.ceilMillis` — the first whole millisecond that is not earlier.
* `Duration.seconds` — the span as a double.
-/

namespace BlockIngest

namespace Duration

/-- Nanoseconds in a millisecond. -/
def millisecond : Nat := 1000000

/-- Nanoseconds in a second. -/
def second : Nat := 1000000000

/-- The longest span: all 64 bits of seconds and the last nanosecond. -/
def longest : Nat := 0x10000000000000000 * second - 1

/-- A span of `n` milliseconds. -/
def ofMillis (n : Nat) : Nat := n * millisecond

/-- A span of `n` seconds. -/
def ofSeconds (n : Nat) : Nat := n * second

/-- Twice as long, but never longer than the longest span. -/
def double (d : Nat) : Nat := min (2 * d) longest

/-- The first whole millisecond at or after `d`: clocks are read and set in whole milliseconds. -/
def ceilMillis (d : Nat) : Nat := (d + (millisecond - 1)) / millisecond * millisecond

/-- Whole milliseconds in `d`. -/
def toMillis (d : Nat) : Nat := d / millisecond

/-- The span in seconds.  Seconds and the rest are converted apart and added, each step rounded. -/
def seconds (d : Nat) : Float :=
  (d / second).toUInt64.toFloat + (d % second).toUInt64.toFloat / 1e9

end Duration

end BlockIngest
