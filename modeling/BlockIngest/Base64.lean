/-!
# Base64

Transactions travel in the standard alphabet with canonical padding: every four symbols denote three
bytes, the last group is filled up with equals signs, and bits of the last symbol that denote
nothing are zero.  Hence every list of bytes has exactly one text.  A text is refused at its first
fault, with the place of it.

## Main definitions

* `Base64.encode`, `Base64.encodeText` — the symbols of a list of bytes.
* `Base64.Error` — why a text is refused.
* `Base64.decode`, `Base64.decodeText` — the bytes that symbols denote.
-/

namespace BlockIngest

namespace Base64

/-- The padding sign. -/
def pad : UInt8 := 61

/-- The symbol for a number below sixty-four. -/
def symbol (n : Nat) : UInt8 :=
  if n < 26 then UInt8.ofNat (65 + n)
  else if n < 52 then UInt8.ofNat (97 + (n - 26))
  else if n < 62 then UInt8.ofNat (48 + (n - 52))
  else if n = 62 then 43
  else 47

/-- The number that a symbol stands for. -/
def value? (b : UInt8) : Option Nat :=
  let n := b.toNat
  if 65 ≤ n ∧ n ≤ 90 then some (n - 65)
  else if 97 ≤ n ∧ n ≤ 122 then some (n - 97 + 26)
  else if 48 ≤ n ∧ n ≤ 57 then some (n - 48 + 52)
  else if n = 43 then some 62
  else if n = 47 then some 63
  else none

/-- The symbols of a list of bytes. -/
def encode : List UInt8 → List UInt8
  | [] => []
  | [a] => [symbol (a.toNat / 4), symbol (a.toNat % 4 * 16), pad, pad]
  | [a, b] => [symbol (a.toNat / 4), symbol (a.toNat % 4 * 16 + b.toNat / 16),
      symbol (b.toNat % 16 * 4), pad]
  | a :: b :: c :: rest =>
      symbol (a.toNat / 4) :: symbol (a.toNat % 4 * 16 + b.toNat / 16)
        :: symbol (b.toNat % 16 * 4 + c.toNat / 64) :: symbol (c.toNat % 64) :: encode rest

/-- Why a text is refused. -/
inductive Error where
  /-- The byte at this offset is no symbol, or a padding sign out of place. -/
  | invalidByte (offset : Nat) (byte : UInt8)
  /-- The text ends with a symbol that cannot denote a whole byte; the length up to there. -/
  | invalidLength (length : Nat)
  /-- The last symbol has bits that denote nothing and are not zero. -/
  | invalidLastSymbol (offset : Nat) (byte : UInt8)
  /-- The last group is not filled up to four. -/
  | invalidPadding
  deriving DecidableEq, Repr

/-- The wording of a refusal. -/
def Error.message : Error → String
  | .invalidByte offset byte => s!"Invalid symbol {byte.toNat}, offset {offset}."
  | .invalidLength length => s!"Invalid input length: {length}"
  | .invalidLastSymbol offset byte => s!"Invalid last symbol {byte.toNat}, offset {offset}."
  | .invalidPadding => "Invalid padding"

/-- The value of the symbol `b` at `offset`. -/
def valueAt (offset : Nat) (b : UInt8) : Except Error Nat :=
  match value? b with
  | some v => .ok v
  | none => .error (.invalidByte offset b)

/-- Reads the symbols of the last group up to its padding.  `seen` symbols stand in front of `bs`,
and the group starts at `offset`.  Padding must follow two or three symbols, and nothing but padding
may follow it. -/
def lastSymbols (offset : Nat) : Nat → List UInt8 → Except Error (List (UInt8 × Nat) × Nat)
  | _, [] => .ok ([], 0)
  | seen, b :: bs =>
      if b = pad then
        if seen < 2 then .error (.invalidByte (offset + seen) b)
        else if bs.all (· = pad) then .ok ([], bs.length + 1)
        else .error (.invalidByte (offset + seen) pad)
      else do
        let v ← valueAt (offset + seen) b
        let (symbols, padding) ← lastSymbols offset (seen + 1) bs
        return ((b, v) :: symbols, padding)

/-- The bytes of the last group: at most four signs, starting at `offset`. -/
def decodeLast (offset : Nat) (bs : List UInt8) : Except Error (List UInt8) := do
  let (symbols, padding) ← lastSymbols offset 0 bs
  match symbols with
  | [] => if bs = [] then return [] else throw (.invalidLength offset)
  | [_] => throw (.invalidLength (offset + 1))
  | [(_, a), (s, b)] =>
      if (padding + 2) % 4 ≠ 0 then throw .invalidPadding
      else if b % 16 ≠ 0 then throw (.invalidLastSymbol (offset + 1) s)
      else return [UInt8.ofNat (a * 4 + b / 16)]
  | [(_, a), (_, b), (s, c)] =>
      if (padding + 3) % 4 ≠ 0 then throw .invalidPadding
      else if c % 4 ≠ 0 then throw (.invalidLastSymbol (offset + 2) s)
      else return [UInt8.ofNat (a * 4 + b / 16), UInt8.ofNat (b % 16 * 16 + c / 4)]
  | (_, a) :: (_, b) :: (_, c) :: (_, d) :: _ =>
      return [UInt8.ofNat (a * 4 + b / 16), UInt8.ofNat (b % 16 * 16 + c / 4),
        UInt8.ofNat (c % 4 * 64 + d)]

/-- The bytes of all groups from `offset` on.  Every group but the last holds four symbols. -/
def decodeGroups (offset : Nat) : List UInt8 → Except Error (List UInt8)
  | a :: b :: c :: d :: e :: rest => do
      let va ← valueAt offset a
      let vb ← valueAt (offset + 1) b
      let vc ← valueAt (offset + 2) c
      let vd ← valueAt (offset + 3) d
      let tail ← decodeGroups (offset + 4) (e :: rest)
      return UInt8.ofNat (va * 4 + vb / 16) :: UInt8.ofNat (vb % 16 * 16 + vc / 4)
        :: UInt8.ofNat (vc % 4 * 64 + vd) :: tail
  | last => decodeLast offset last

/-- The fault of a text whose last group is a single foreign byte, such as a line feed: it is
reported before all others. -/
def strayLast? (bs : List UInt8) : Option Error :=
  match bs.getLast? with
  | some b =>
      if bs.length % 4 = 1 ∧ b ≠ pad ∧ value? b = none then some (.invalidByte (bs.length - 1) b)
      else none
  | none => none

/-- The bytes that a list of symbols denotes. -/
def decode (bs : List UInt8) : Except Error (List UInt8) :=
  match strayLast? bs with
  | some e => .error e
  | none => decodeGroups 0 bs

/-- The bytes of a text in its UTF-8 form. -/
def utf8 (s : String) : List UInt8 := s.toUTF8.toList

/-- The symbols of a list of bytes as a text. -/
def encodeText (bytes : List UInt8) : String :=
  String.ofList ((encode bytes).map fun b => Char.ofNat b.toNat)

/-- The bytes that a text denotes. -/
def decodeText (s : String) : Except Error (List UInt8) := decode (utf8 s)

end Base64

end BlockIngest
