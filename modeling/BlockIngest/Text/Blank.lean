/-!
# Blanks

Settings, heights and encoded transactions may stand between blanks.  A blank is a character with
the white-space property of Unicode.

## Main definitions

* `Text.isBlank` — the blanks.
* `Text.trim` — a text without the blanks at its ends.
-/

namespace BlockIngest

namespace Text

/-- The characters with the white-space property. -/
def isBlank (c : Char) : Bool :=
  let n := c.toNat
  (9 ≤ n && n ≤ 13) || n == 0x20 || n == 0x85 || n == 0xA0 || n == 0x1680 ||
    (0x2000 ≤ n && n ≤ 0x200A)
    || n == 0x2028 || n == 0x2029 || n == 0x202F || n == 0x205F || n == 0x3000

/-- A text without the blanks in front of it and behind it. -/
def trimList (cs : List Char) : List Char :=
  ((cs.dropWhile isBlank).reverse.dropWhile isBlank).reverse

/-- A text without the blanks in front of it and behind it. -/
def trim (s : String) : String := String.ofList (trimList s.toList)

end Text

end BlockIngest
