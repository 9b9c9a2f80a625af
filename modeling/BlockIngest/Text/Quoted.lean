import BlockIngest.Text.Printable

/-!
# Quoted text

Error messages show foreign text between double quotes.  The quote, the backslash, tab, line feed,
carriage return and NUL have escapes of two characters; whatever else would not show as itself is
written as its code point in hexadecimal between braces.

## Main definitions

* `Text.lowerHex` — a number in hexadecimal without leading zeros.
* `Text.escape` — how one character is shown.
* `Text.quoted` — how a text is shown.
-/

namespace BlockIngest

namespace Text

/-- The hexadecimal digits of `n`, in lower case and without leading zeros. -/
def lowerHex (n : Nat) : List Char := Nat.toDigits 16 n

/-- How one character is shown between double quotes. -/
def escape (c : Char) : List Char :=
  if c = '\x00' then ['\\', '0']
  else if c = '\t' then ['\\', 't']
  else if c = '\r' then ['\\', 'r']
  else if c = '\n' then ['\\', 'n']
  else if c = '"' then ['\\', '"']
  else if c = '\\' then ['\\', '\\']
  else if isPrintable c then [c]
  else '\\' :: 'u' :: '\x7b' :: (lowerHex c.toNat ++ ['\x7d'])

/-- The text between double quotes, with every character shown as `escape` says. -/
def quoted (s : String) : String :=
  String.ofList ('"' :: (s.toList.flatMap escape ++ ['"']))

end Text

end BlockIngest
