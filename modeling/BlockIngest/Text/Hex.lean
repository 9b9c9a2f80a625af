/-!
# Hexadecimal bytes

Every byte is written with two digits in lower case.

## Main definitions

* `Text.hex` — the digits of a list of bytes.
* `Text.unhex?` — the bytes that digits denote.
-/

namespace BlockIngest

namespace Text

/-- The digit for a number below sixteen. -/
def hexDigit (n : Nat) : Char :=
  if n < 10 then Char.ofNat ('0'.toNat + n) else Char.ofNat ('a'.toNat + (n - 10))

/-- The digits of a list of bytes, two for each. -/
def hexDigits (bytes : List UInt8) : List Char :=
  bytes.flatMap fun b => [hexDigit (b.toNat / 16), hexDigit (b.toNat % 16)]

/-- The bytes in hexadecimal. -/
def hex (bytes : List UInt8) : String := String.ofList (hexDigits bytes)

/-- The value of a hexadecimal digit in either case. -/
def hexValue? (c : Char) : Option Nat :=
  if '0' ≤ c ∧ c ≤ '9' then some (c.toNat - '0'.toNat)
  else if 'a' ≤ c ∧ c ≤ 'f' then some (c.toNat - 'a'.toNat + 10)
  else if 'A' ≤ c ∧ c ≤ 'F' then some (c.toNat - 'A'.toNat + 10)
  else none

/-- The bytes that a list of digits denotes; none if a digit is missing or foreign. -/
def unhexDigits? : List Char → Option (List UInt8)
  | [] => some []
  | [_] => none
  | a :: b :: rest => do
      let hi ← hexValue? a
      let lo ← hexValue? b
      let tail ← unhexDigits? rest
      return UInt8.ofNat (hi * 16 + lo) :: tail

/-- The bytes that a text of hexadecimal digits denotes. -/
def unhex? (s : String) : Option (List UInt8) := unhexDigits? s.toList

end Text

end BlockIngest
