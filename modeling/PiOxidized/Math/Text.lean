/-
# Whitespace at the ends of a text

The whitespace of Unicode, and texts without it in front or behind.
-/

import Mathlib.Data.List.Basic

namespace PiOxidized.Math

/-- The characters with the Unicode property `White_Space`. -/
def isWhitespace (c : Char) : Bool :=
  (0x9 ≤ c.toNat && c.toNat ≤ 0xD) || c.toNat == 0x20 || c.toNat == 0x85 || c.toNat == 0xA0 ||
    c.toNat == 0x1680 || (0x2000 ≤ c.toNat && c.toNat ≤ 0x200A) || c.toNat == 0x2028 ||
    c.toNat == 0x2029 || c.toNat == 0x202F || c.toNat == 0x205F || c.toNat == 0x3000

/-- A text without the whitespace in front. -/
def trimStart (text : List Char) : List Char := text.dropWhile isWhitespace

/-- A text without the whitespace at its end. -/
def trimEnd (text : List Char) : List Char := (text.reverse.dropWhile isWhitespace).reverse

/-- A text without the whitespace at either end. -/
def trim (text : List Char) : List Char := trimEnd (trimStart text)

end PiOxidized.Math
