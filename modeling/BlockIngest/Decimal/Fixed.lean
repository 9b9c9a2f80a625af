import BlockIngest.Decimal.Double

/-!
# A fixed number of decimal places

Rates are reported with two places.  The exact value of the double is rounded to the nearest
multiple of the last place, and a value half way between two of them goes to the even one.

## Main definitions

* `Decimal.fixed` — the text of a double with a given number of places.
-/

namespace BlockIngest

namespace Decimal

/-- `digits` counts units of the last of `places` decimal places; this writes the point. -/
def withPoint (places digits : Nat) : String :=
  if places = 0 then toString digits
  else
    let fraction := (Nat.toDigits 10 (digits % Nat.pow 10 places))
    toString (digits / Nat.pow 10 places) ++ "."
      ++ String.ofList (List.replicate (places - fraction.length) '0' ++ fraction)

/-- The double with these bits, rounded to `places` decimal places. -/
def fixed (places : Nat) (bits : UInt64) : String :=
  match Double.ofBits? bits with
  | none =>
      if bits.toNat % 0x10000000000000 ≠ 0 then "NaN"
      else if bits.toNat < 0x8000000000000000 then "inf"
      else "-inf"
  | some d =>
      let (num, den) := powerOfTwo d.exponent
      let text := withPoint places (roundHalfEven (d.significand * num * Nat.pow 10 places) den)
      if d.negative then "-" ++ text else text

end Decimal

end BlockIngest
