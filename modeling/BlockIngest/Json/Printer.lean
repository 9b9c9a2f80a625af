import BlockIngest.Decimal.Shortest
import BlockIngest.Json.Basic
import BlockIngest.Text.Hex

/-!
# Printing JSON

A value is printed without blanks and with ASCII characters only: any other character of a string is
written by its units of sixteen bits.

## Main definitions

* `Json.print` — the text of a value.
* `Json.quote` — the text of a string.
-/

namespace BlockIngest

namespace Json

/-- A unit of sixteen bits. -/
def printUnit (n : Nat) : List Char :=
  '\\' :: 'u' :: [n / 4096, n / 256 % 16, n / 16 % 16, n % 16].map Text.hexDigit

/-- A character of a string. -/
def printChar (c : Char) : List Char :=
  let n := c.toNat
  if c = '"' then ['\\', '"']
  else if c = '\\' then ['\\', '\\']
  else if 32 ≤ n ∧ n < 127 then [c]
  else if n < 0x10000 then printUnit n
  else printUnit (0xd800 + (n - 0x10000) / 0x400) ++ printUnit (0xdc00 + (n - 0x10000) % 0x400)

/-- A string between quotes. -/
def quote (s : String) : String := String.ofList ('"' :: s.toList.flatMap printChar ++ ['"'])

mutual

/-- The text of a value. -/
def print : Json → String
  | .null => "null"
  | .bool b => if b then "true" else "false"
  | .int n => toString n
  | .float bits => Decimal.shortest bits
  | .str s => quote s
  | .arr items => "[" ++ ",".intercalate (printItems items) ++ "]"
  | .obj members => "\x7b" ++ ",".intercalate (printMembers members) ++ "\x7d"

/-- The texts of the items of a sequence. -/
def printItems : List Json → List String
  | [] => []
  | v :: vs => print v :: printItems vs

/-- The texts of the members of an object. -/
def printMembers : List (String × Json) → List String
  | [] => []
  | (name, v) :: ms => (quote name ++ ":" ++ print v) :: printMembers ms

end

end Json

end BlockIngest
