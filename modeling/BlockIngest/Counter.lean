/-!
# Counters

A counter is a word of 64 bits.  It wraps round: after the largest word comes zero.

## Main definitions

* `Counter.bump` — a counter after further events.
-/

namespace BlockIngest

/-- A counter after `n` further events. -/
def Counter.bump (counter n : Nat) : Nat := (counter + n) % 0x10000000000000000

end BlockIngest
