import BlockIngest.Height

/-!
# Numerals

The grammar of a 64-bit number in decimal: an optional plus sign and one digit or more.  A text is
read from the left and refused at the first character that spoils it, so that of two faults the
earlier one is reported.

## Main definitions

* `Text.NumeralError` — why a text is no numeral.
* `Text.readNumeral` — the number that a text denotes.
-/

namespace BlockIngest

namespace Text

/-- Why a text denotes no number. -/
inductive NumeralError where
  /-- There is no character at all. -/
  | empty
  /-- A character is not a digit, or the sign stands alone. -/
  | invalidDigit
  /-- The digits read so far already exceed 64 bits. -/
  | tooLarge
  deriving DecidableEq, Repr

/-- The wording of a refusal. -/
def NumeralError.message : NumeralError → String
  | .empty => "cannot parse integer from empty string"
  | .invalidDigit => "invalid digit found in string"
  | .tooLarge => "number too large to fit in target type"

/-- The value of a decimal digit. -/
def digit? (c : Char) : Option Nat :=
  if '0' ≤ c ∧ c ≤ '9' then some (c.toNat - '0'.toNat) else none

/-- Goes on reading digits behind those that denote `value`. -/
def readDigits (value : Nat) : List Char → Except NumeralError Nat
  | [] => .ok value
  | c :: cs =>
      match digit? c with
      | none => .error .invalidDigit
      | some d =>
          if Height.top < value * 10 + d then .error .tooLarge
          else readDigits (value * 10 + d) cs

/-- The number that a list of characters denotes. -/
def readNumeralList : List Char → Except NumeralError Nat
  | [] => .error .empty
  | ['+'] => .error .invalidDigit
  | '+' :: cs => readDigits 0 cs
  | cs => readDigits 0 cs

/-- The number that a text denotes. -/
def readNumeral (s : String) : Except NumeralError Nat := readNumeralList s.toList

end Text

end BlockIngest
