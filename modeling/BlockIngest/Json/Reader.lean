import BlockIngest.Json.Basic
import BlockIngest.Text.Hex

/-!
# Reading JSON text

A JSON value is read from the front of a text, with blanks between its parts.  Half a pair of
surrogates is no character, so a text that writes one is refused.

## Main definitions

* `Json.parse?` — the value that a text denotes.
* `Json.readNumber`, `Json.readString`, `Json.readValue` — parts of it, read from the front of a
  text.
-/

namespace BlockIngest

namespace Json

/-- Leaves the blanks at the front out. -/
def skipBlanks (cs : List Char) : List Char :=
  cs.dropWhile fun c => c = ' ' || c = '\t' || c = '\n' || c = '\r'

/-! ### Strings -/

/-- What is read of a string: the characters, last first, and the front half of a pair of
surrogates. -/
structure StringSoFar where
  /-- The characters, last first. -/
  reversed : List Char
  /-- The front half of a pair. -/
  high : Option Nat

/-- Adds a character. -/
def StringSoFar.push (s : StringSoFar) (c : Char) : Option StringSoFar :=
  match s.high with
  | none => some { s with reversed := c :: s.reversed }
  | some _ => none

/-- Adds a unit of sixteen bits: a character, or half a pair. -/
def StringSoFar.pushUnit (s : StringSoFar) (unit : Nat) : Option StringSoFar :=
  match s.high with
  | none =>
      if 0xd800 ≤ unit ∧ unit < 0xdc00 then some { s with high := some unit }
      else if 0xdc00 ≤ unit ∧ unit < 0xe000 then none
      else s.push (Char.ofNat unit)
  | some high =>
      if 0xdc00 ≤ unit ∧ unit < 0xe000 then
        some ⟨Char.ofNat (0x10000 + (high - 0xd800) * 0x400 + (unit - 0xdc00)) :: s.reversed, none⟩
      else none

/-- The character that follows a backslash, for those that are written with one letter. -/
def escaped? : Char → Option Char
  | '"' => some '"'
  | '\\' => some '\\'
  | '/' => some '/'
  | 'b' => some '\x08'
  | 'f' => some '\x0c'
  | 'n' => some '\n'
  | 'r' => some '\r'
  | 't' => some '\t'
  | _ => none

/-- The number that four hexadecimal digits denote. -/
def unit? (a b c d : Char) : Option Nat := do
  return (((← Text.hexValue? a) * 16 + (← Text.hexValue? b)) * 16 + (← Text.hexValue? c)) * 16 +
    (← Text.hexValue? d)

/-- Reads what is left of a string whose opening quote was read. -/
def readString (s : StringSoFar) : List Char → Option (String × List Char)
  | '"' :: rest => if s.high.isSome then none else some (String.ofList s.reversed.reverse, rest)
  | '\\' :: 'u' :: a :: b :: c :: d :: rest =>
      match (unit? a b c d).bind s.pushUnit with
      | some s => readString s rest
      | none => none
  | '\\' :: c :: rest =>
      match (escaped? c).bind s.push with
      | some s => readString s rest
      | none => none
  | c :: rest =>
      match s.push c with
      | some s => readString s rest
      | none => none
  | [] => none

/-! ### Numbers -/

/-- The number that decimal digits denote. -/
def digits (cs : List Char) : Nat := cs.foldl (fun n c => n * 10 + (c.toNat - '0'.toNat)) 0

/-- Reads a sign. -/
def readSign : List Char → Bool × List Char
  | '-' :: rest => (true, rest)
  | '+' :: rest => (false, rest)
  | cs => (false, cs)

/-- Reads the digits behind a point, if there are any. -/
def readFraction : List Char → List Char × List Char
  | '.' :: rest => (rest.takeWhile Char.isDigit, rest.dropWhile Char.isDigit)
  | cs => ([], cs)

/-- Reads a power of ten, if there is one. -/
def readExponent : List Char → Option Int × List Char
  | c :: rest =>
      if c = 'e' || c = 'E' then
        let (negative, rest) := readSign rest
        let size : Int := digits (rest.takeWhile Char.isDigit)
        (some (if negative then -size else size), rest.dropWhile Char.isDigit)
      else (none, c :: rest)
  | [] => (none, [])

/-- Reads a number.  One that is written with digits only is whole; minus zero is not. -/
def readNumber (cs : List Char) : Json × List Char :=
  let (negative, cs) := readSign cs
  let whole := cs.takeWhile Char.isDigit
  let (fraction, cs) := readFraction (cs.dropWhile Char.isDigit)
  let (exponent, cs) := readExponent cs
  let mantissa := digits (whole ++ fraction)
  let isWhole := fraction.isEmpty && exponent.isNone && !(negative && mantissa == 0)
  let value :=
    if isWhole then ofInteger (if negative then -(mantissa : Int) else mantissa)
    else ofDecimal negative mantissa (exponent.getD 0 - fraction.length)
  (value, cs)

/-! ### Values -/

mutual

/-- Reads a value, with at most `fuel` parts in it. -/
def readValue : Nat → List Char → Option (Json × List Char)
  | 0, _ => none
  | fuel + 1, cs =>
      match cs with
      | '{' :: rest => readObject fuel rest
      | '[' :: rest => readArray fuel rest
      | '"' :: rest => (readString ⟨[], none⟩ rest).map fun (s, rest) => (.str s, rest)
      | 't' :: 'r' :: 'u' :: 'e' :: rest => some (.bool true, rest)
      | 'f' :: 'a' :: 'l' :: 's' :: 'e' :: rest => some (.bool false, rest)
      | 'n' :: 'u' :: 'l' :: 'l' :: rest => some (.null, rest)
      | c :: rest => if c = '-' || c.isDigit then some (readNumber (c :: rest)) else none
      | [] => none

/-- Reads a sequence whose opening bracket was read. -/
def readArray : Nat → List Char → Option (Json × List Char)
  | 0, _ => none
  | fuel + 1, cs =>
      match skipBlanks cs with
      | ']' :: rest => some (.arr [], rest)
      | cs => readItems fuel [] cs

/-- Reads the items of a sequence; `items` were read before, last first. -/
def readItems : Nat → List Json → List Char → Option (Json × List Char)
  | 0, _, _ => none
  | fuel + 1, items, cs =>
      match readValue fuel (skipBlanks cs) with
      | none => none
      | some (v, rest) =>
          match skipBlanks rest with
          | ',' :: rest => readItems fuel (v :: items) rest
          | ']' :: rest => some (.arr (v :: items).reverse, rest)
          | _ => none

/-- Reads an object whose opening brace was read. -/
def readObject : Nat → List Char → Option (Json × List Char)
  | 0, _ => none
  | fuel + 1, cs =>
      match skipBlanks cs with
      | '}' :: rest => some (.obj [], rest)
      | cs => readMembers fuel [] cs

/-- Reads the members of an object; `members` were read before, last first. -/
def readMembers : Nat → List (String × Json) → List Char → Option (Json × List Char)
  | 0, _, _ => none
  | fuel + 1, members, cs =>
      match skipBlanks cs with
      | '"' :: rest =>
          match readString ⟨[], none⟩ rest with
          | none => none
          | some (name, rest) =>
              match skipBlanks rest with
              | ':' :: rest =>
                  match readValue fuel (skipBlanks rest) with
                  | none => none
                  | some (v, rest) =>
                      match skipBlanks rest with
                      | ',' :: rest => readMembers fuel ((name, v) :: members) rest
                      | '}' :: rest => some (object ((name, v) :: members).reverse, rest)
                      | _ => none
              | _ => none
      | _ => none

end

/-- The value that a text denotes.  Every part of a value takes at least one character, so the
length of the text bounds the number of parts. -/
def parse? (text : String) : Option Json :=
  let cs := skipBlanks text.toList
  match readValue (2 * cs.length + 2) cs with
  | some (v, rest) => if (skipBlanks rest).isEmpty then some v else none
  | none => none

end Json

end BlockIngest
