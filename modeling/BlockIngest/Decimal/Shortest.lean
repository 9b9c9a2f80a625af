import BlockIngest.Decimal.Double

/-!
# The shortest decimal text of a double

A double stands for every real number that rounds to it.  Its shortest text has the fewest digits
that denote one of these numbers, and among the texts of that length it denotes the number nearest
to the double itself.

## Main definitions

* `Decimal.shortestDigits` — the digits and the power of ten of the last of them.
* `Decimal.Layout`, `Decimal.Layout.write` — where the point stands and when an exponent is written.
* `Decimal.shortest` — the text.
-/

namespace BlockIngest

namespace Decimal

/-- Whether `candidate * 10 ^ place` rounds to the double `d`.  The ends of the interval belong to
it when the significand is even. -/
def roundsTo (d : Double) (candidate : Nat) (place : Int) : Bool :=
  -- All three numbers are counted in quarters of the gap above `d`.
  let (un, ud) := powerOfTwo (d.exponent - 2)
  let (gn, gd) := powerOfTen place
  let x := candidate * gn * ud
  let low := (4 * d.significand - (if d.narrowBelow then 1 else 2)) * un * gd
  let high := (4 * d.significand + 2) * un * gd
  if d.significand % 2 = 0 then decide (low ≤ x ∧ x ≤ high) else decide (low < x ∧ x < high)

/-- The decimal exponent of the leading digit of a fraction below one, looked for from `10 ^ -place`
on. -/
def leadingPlaceBelowOne (num den : Nat) : Nat → Nat → Int
  | 0, place => -(place : Int)
  | fuel + 1, place =>
      if den ≤ num * Nat.pow 10 place then -(place : Int)
      else leadingPlaceBelowOne num den fuel (place + 1)

/-- The decimal exponent of the leading digit of `num / den`.  No double is below `10 ^ -324`. -/
def leadingPlace (num den : Nat) : Int :=
  if den ≤ num then ((Nat.toDigits 10 (num / den)).length : Int) - 1
  else leadingPlaceBelowOne num den 324 1

/-- Drops trailing zeros from a number, counting the place of its last digit up. -/
def stripZeros : Nat → Nat → Int → Nat × Int
  | 0, n, place => (n, place)
  | fuel + 1, n, place =>
      if n ≠ 0 ∧ n % 10 = 0 then stripZeros fuel (n / 10) (place + 1) else (n, place)

/-- Tries texts of `count` digits, then longer ones: seventeen digits always suffice. -/
def searchDigits (d : Double) (num den : Nat) (lead : Int) : Nat → Nat → Nat × Int
  | 0, count => (0, lead - count + 1)
  | fuel + 1, count =>
      let place := lead - count + 1
      let (gn, gd) := powerOfTen place
      let below := num * gd / (den * gn)
      let nearest := roundHalfEven (num * gd) (den * gn)
      if roundsTo d nearest place then stripZeros 20 nearest place
      else if roundsTo d below place then stripZeros 20 below place
      else if roundsTo d (below + 1) place then stripZeros 20 (below + 1) place
      else searchDigits d num den lead fuel (count + 1)

/-- The digits of the shortest text, and the power of ten that its last digit counts. -/
def shortestDigits (d : Double) : Nat × Int :=
  if d.significand = 0 then (0, 0)
  else
    let (pn, pd) := powerOfTwo d.exponent
    let num := d.significand * pn
    searchDigits d num pd (leadingPlace num pd) 17 1

/-- How digits are laid out. -/
structure Layout where
  /-- A number with more digits before the point gets an exponent. -/
  maxBefore : Int
  /-- A number with this many zeros or more between the point and the first digit gets an
  exponent. -/
  minAfter : Int

/-- JSON numbers are written out up to sixteen places before the point and five zeros behind it. -/
def Layout.json : Layout := ⟨16, 5⟩

/-- Lays digits out.  A number without an exponent always shows a point. -/
def Layout.write (l : Layout) (digits : Nat) (place : Int) : String :=
  let ds := Nat.toDigits 10 digits
  let point : Int := ds.length + place
  if 0 ≤ place ∧ point ≤ l.maxBefore then
    String.ofList (ds ++ List.replicate place.toNat '0') ++ ".0"
  else if 0 < point ∧ point ≤ l.maxBefore then
    String.ofList (ds.take point.toNat) ++ "." ++ String.ofList (ds.drop point.toNat)
  else if -l.minAfter < point ∧ point ≤ 0 then
    "0." ++ String.ofList (List.replicate (-point).toNat '0' ++ ds)
  else
    let exponent := "e" ++ toString (point - 1)
    match ds with
    | [d] => String.ofList [d] ++ exponent
    | d :: rest => String.ofList [d] ++ "." ++ String.ofList rest ++ exponent
    | [] => exponent

/-- The shortest text of the double with these bits; a double that is not finite has none and shows
as null. -/
def shortest (bits : UInt64) : String :=
  match Double.ofBits? bits with
  | none => "null"
  | some d =>
      let (digits, place) := shortestDigits d
      let text := if digits = 0 then "0.0" else Layout.json.write digits place
      if d.negative then "-" ++ text else text

end Decimal

end BlockIngest
