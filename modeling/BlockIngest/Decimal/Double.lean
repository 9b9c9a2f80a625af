/-!
# Doubles as exact fractions

A finite double is a sign and a product `m * 2 ^ q` of whole numbers, so its decimal text can be
found with whole numbers alone.  Nothing here rounds.

## Main definitions

* `Decimal.Double` — sign, significand and binary exponent of a finite double.
* `Decimal.Double.ofBits?` — taking the 64 bits apart.
* `Decimal.powerOfTwo`, `Decimal.powerOfTen` — powers as fractions.
* `Decimal.roundHalfEven` — the whole number nearest to a fraction.
-/

namespace BlockIngest

namespace Decimal

/-- A finite double: `significand * 2 ^ exponent`, with a sign. -/
structure Double where
  /-- Whether the sign bit is set. -/
  negative : Bool
  /-- The significand, with the leading bit that the format leaves out. -/
  significand : Nat
  /-- The power of two that it is multiplied with. -/
  exponent : Int
  /-- Whether the next smaller double is only half as far away as the next larger one. -/
  narrowBelow : Bool
  deriving DecidableEq, Repr

/-- The parts of the double with these bits; none for infinities and for what is not a number. -/
def Double.ofBits? (bits : UInt64) : Option Double :=
  let b : Nat := bits.toNat
  let negative := decide (0x8000000000000000 ≤ b)
  let biased : Nat := b / 0x10000000000000 % 0x800
  let fraction : Nat := b % 0x10000000000000
  if biased = 2047 then none
  else if biased = 0 then some ⟨negative, fraction, -1074, false⟩
  else some ⟨negative, 0x10000000000000 + fraction, Int.ofNat biased - 1075,
    decide (fraction = 0 ∧ 1 < biased)⟩

/-- Numerator and denominator of `2 ^ e`. -/
def powerOfTwo (e : Int) : Nat × Nat :=
  if 0 ≤ e then (Nat.pow 2 e.toNat, 1) else (1, Nat.pow 2 (-e).toNat)

/-- Numerator and denominator of `10 ^ e`. -/
def powerOfTen (e : Int) : Nat × Nat :=
  if 0 ≤ e then (Nat.pow 10 e.toNat, 1) else (1, Nat.pow 10 (-e).toNat)

/-- The whole number nearest to a fraction; of two equally near ones the even one. -/
def roundHalfEven (num den : Nat) : Nat :=
  let q := num / den
  let r := num % den
  if 2 * r < den then q
  else if den < 2 * r then q + 1
  else if q % 2 = 0 then q else q + 1

end Decimal

end BlockIngest
