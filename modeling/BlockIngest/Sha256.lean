import BlockIngest.Text.Hex

/-!
# SHA-256

Transactions are named by the SHA-256 digest of their bytes.  The message is filled up to whole
blocks of sixty-four bytes, and each block is mixed into eight chaining words in sixty-four rounds.

## Main definitions

* `Sha256.schedule` — the sixty-four words of a block.
* `Sha256.compress` — one block mixed into the chaining words.
* `Sha256.digest` — the thirty-two bytes of the digest.
* `Sha256.hexDigest` — the digest in hexadecimal.
-/

namespace BlockIngest

namespace Sha256

/-- The word rotated to the right by `n` bits. -/
def rotr (x : UInt32) (n : UInt32) : UInt32 := (x >>> n) ||| (x <<< (32 - n))

/-- The round constants: the first bits of the fractional parts of the cube roots of the first
primes. -/
def roundConstants : List UInt32 := [
  0x428a2f98, 0x71374491, 0xb5c0fbcf, 0xe9b5dba5, 0x3956c25b, 0x59f111f1, 0x923f82a4, 0xab1c5ed5,
  0xd807aa98, 0x12835b01, 0x243185be, 0x550c7dc3, 0x72be5d74, 0x80deb1fe, 0x9bdc06a7, 0xc19bf174,
  0xe49b69c1, 0xefbe4786, 0x0fc19dc6, 0x240ca1cc, 0x2de92c6f, 0x4a7484aa, 0x5cb0a9dc, 0x76f988da,
  0x983e5152, 0xa831c66d, 0xb00327c8, 0xbf597fc7, 0xc6e00bf3, 0xd5a79147, 0x06ca6351, 0x14292967,
  0x27b70a85, 0x2e1b2138, 0x4d2c6dfc, 0x53380d13, 0x650a7354, 0x766a0abb, 0x81c2c92e, 0x92722c85,
  0xa2bfe8a1, 0xa81a664b, 0xc24b8b70, 0xc76c51a3, 0xd192e819, 0xd6990624, 0xf40e3585, 0x106aa070,
  0x19a4c116, 0x1e376c08, 0x2748774c, 0x34b0bcb5, 0x391c0cb3, 0x4ed8aa4a, 0x5b9cca4f, 0x682e6ff3,
  0x748f82ee, 0x78a5636f, 0x84c87814, 0x8cc70208, 0x90befffa, 0xa4506ceb, 0xbef9a3f7, 0xc67178f2]

/-- The eight chaining words. -/
structure Words where
  /-- First word. -/
  a : UInt32
  /-- Second word. -/
  b : UInt32
  /-- Third word. -/
  c : UInt32
  /-- Fourth word. -/
  d : UInt32
  /-- Fifth word. -/
  e : UInt32
  /-- Sixth word. -/
  f : UInt32
  /-- Seventh word. -/
  g : UInt32
  /-- Eighth word. -/
  h : UInt32
  deriving DecidableEq, Repr

/-- The chaining words before the first block. -/
def Words.initial : Words :=
  ⟨0x6a09e667, 0xbb67ae85, 0x3c6ef372, 0xa54ff53a, 0x510e527f, 0x9b05688c, 0x1f83d9ab, 0x5be0cd19⟩

/-- Word by word addition. -/
def Words.add (x y : Words) : Words :=
  ⟨x.a + y.a, x.b + y.b, x.c + y.c, x.d + y.d, x.e + y.e, x.f + y.f, x.g + y.g, x.h + y.h⟩

/-- The words in order. -/
def Words.toList (x : Words) : List UInt32 := [x.a, x.b, x.c, x.d, x.e, x.f, x.g, x.h]

/-- One round with a word of the schedule and a round constant. -/
def Words.round (x : Words) (w k : UInt32) : Words :=
  let s1 := rotr x.e 6 ^^^ rotr x.e 11 ^^^ rotr x.e 25
  let choice := (x.e &&& x.f) ^^^ (~~~x.e &&& x.g)
  let t1 := x.h + s1 + choice + k + w
  let s0 := rotr x.a 2 ^^^ rotr x.a 13 ^^^ rotr x.a 22
  let majority := (x.a &&& x.b) ^^^ (x.a &&& x.c) ^^^ (x.b &&& x.c)
  ⟨t1 + (s0 + majority), x.a, x.b, x.c, x.d + t1, x.e, x.f, x.g⟩

/-- The big-endian words of a list of bytes. -/
def wordsOf : List UInt8 → List UInt32
  | a :: b :: c :: d :: rest =>
      (a.toUInt32 <<< 24 ||| b.toUInt32 <<< 16 ||| c.toUInt32 <<< 8 ||| d.toUInt32) :: wordsOf rest
  | _ => []

/-- The next `n` words of a schedule, given the sixteen words before them, latest first. -/
def extend : Nat → List UInt32 → List UInt32
  | 0, _ => []
  | n + 1, window =>
      let nth := fun i => window.getD i 0
      let s0 := rotr (nth 14) 7 ^^^ rotr (nth 14) 18 ^^^ (nth 14 >>> 3)
      let s1 := rotr (nth 1) 17 ^^^ rotr (nth 1) 19 ^^^ (nth 1 >>> 10)
      let w := nth 15 + s0 + nth 6 + s1
      w :: extend n (w :: window.take 15)

/-- The sixty-four words of a block of sixty-four bytes. -/
def schedule (block : List UInt8) : List UInt32 :=
  let first := wordsOf block
  first ++ extend 48 first.reverse

/-- Mixes a block of sixty-four bytes into the chaining words. -/
def compress (state : Words) (block : List UInt8) : Words :=
  state.add (((schedule block).zip roundConstants).foldl (fun x wk => x.round wk.1 wk.2) state)

/-- The `count` big-endian bytes of a number. -/
def bigEndian (count n : Nat) : List UInt8 :=
  (List.range count).map fun i => UInt8.ofNat (n / Nat.pow 256 (count - 1 - i))

/-- The message with a one bit, zeros, and its length in bits behind it, filled up to whole
blocks. -/
def padded (message : List UInt8) : List UInt8 :=
  message ++ (128 :: List.replicate ((119 - message.length % 64) % 64) 0)
    ++ bigEndian 8 (message.length * 8)

/-- Mixes `count` blocks of sixty-four bytes into the chaining words. -/
def absorb : Nat → Words → List UInt8 → Words
  | 0, state, _ => state
  | count + 1, state, bytes => absorb count (compress state (bytes.take 64)) (bytes.drop 64)

/-- The digest of a message. -/
def digest (message : List UInt8) : List UInt8 :=
  let bytes := padded message
  (absorb (bytes.length / 64) .initial bytes).toList.flatMap fun w => bigEndian 4 w.toNat

/-- The digest in hexadecimal. -/
def hexDigest (message : List UInt8) : String := Text.hex (digest message)

end Sha256

end BlockIngest
