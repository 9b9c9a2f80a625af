import BlockIngest.Height

/-!
# Progress

The last committed height is kept in one 64-bit word, whose largest value means that there is none.

## Main definitions

* `Progress`, `Progress.ofHeight?` — the word.
* `Progress.mark` — a height was committed.
* `Progress.lastCommitted` — what the word says.
-/

namespace BlockIngest

/-- The word that holds the last committed height. -/
structure Progress where
  /-- Its value. -/
  word : Nat
  deriving DecidableEq, Repr

namespace Progress

/-- The word for a height, or for none. -/
def ofHeight? (height : Option Nat) : Progress := ⟨height.getD Height.top⟩

/-- A height was committed. -/
def mark (_ : Progress) (height : Nat) : Progress := ⟨height⟩

/-- The last committed height. -/
def lastCommitted (p : Progress) : Option Nat := if p.word = Height.top then none else some p.word

end Progress

end BlockIngest
