import BootSector.Text.Utf8

/-!
# Blanks

The white space of Unicode: what separates the tokens of a line, and what is trimmed from the two
sides of a definition on the command line.
-/

namespace BootSector.Text

/-- Is `c` white space? -/
def isBlank (c : Char) : Bool :=
  let n := c.toNat
  (0x09 ≤ n && n ≤ 0x0D) || n == 0x20 || n == 0x85 || n == 0xA0 || n == 0x1680 ||
    (0x2000 ≤ n && n ≤ 0x200A) || n == 0x2028 || n == 0x2029 || n == 0x202F || n == 0x205F ||
    n == 0x3000

/-- Is the unit a blank?  A stray byte is none. -/
def isBlankUnit : Utf8.Unit → Bool
  | .char c => isBlank c
  | .stray _ => false

/-- A text without the blanks at its two ends. -/
def trim (text : Bytes) : Bytes :=
  (((Utf8.units text).dropWhile isBlankUnit).reverse.dropWhile isBlankUnit).reverse.flatMap
    Utf8.Unit.bytes

end BootSector.Text
