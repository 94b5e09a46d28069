import BootSector.Text.Graphic
import BootSector.Text.Numeral
import BootSector.Text.Utf8

/-!
# Quoted text

A text between quotes in which everything that cannot be seen is written as an escape: the common
control characters by a letter, other bytes below 0x80 and stray bytes as `\xhh`, and other
characters without a shape as `\uhhhh` or `\Uhhhhhhhh`.
-/

namespace BootSector.Text

/-- The letter that names a control character in an escape. -/
def controlLetter? (c : Char) : Option Char :=
  match c.toNat with
  | 0x07 => some 'a'
  | 0x08 => some 'b'
  | 0x09 => some 't'
  | 0x0A => some 'n'
  | 0x0B => some 'v'
  | 0x0C => some 'f'
  | 0x0D => some 'r'
  | _ => none

/-- An escape of a backslash, a letter and hexadecimal digits. -/
def hexEscape (letter : Char) (width n : Nat) : List Char :=
  '\\' :: letter :: fixedHex lowerHexDigit width n

/-- One character inside the given quotes.  What `shown` accepts stands for itself, except for the
quote and the backslash. -/
def quoteChar (shown : Char → Bool) (quote c : Char) : List Char :=
  if c = quote ∨ c = '\\' then ['\\', c]
  else if shown c then [c]
  else match controlLetter? c with
    | some letter => ['\\', letter]
    | none =>
      if c.toNat < 0x80 then hexEscape 'x' 2 c.toNat
      else if c.toNat < 0x10000 then hexEscape 'u' 4 c.toNat
      else hexEscape 'U' 8 c.toNat

/-- One unit of a byte string inside double quotes. -/
def quoteUnit (shown : Char → Bool) : Utf8.Unit → List Char
  | .char c => quoteChar shown '"' c
  | .stray b => hexEscape 'x' 2 b.toNat

/-- A byte string in double quotes, in which the characters that `shown` accepts stand for
themselves. -/
def quotedBy (shown : Char → Bool) (bs : Bytes) : List Char :=
  '"' :: (Utf8.units bs).flatMap (quoteUnit shown) ++ ['"']

/-- A byte string in double quotes. -/
def quoted (bs : Bytes) : List Char := quotedBy isGraphic bs

/-- A character in single quotes; those that `shown` accepts stand for themselves. -/
def quotedCharBy (shown : Char → Bool) (c : Char) : List Char :=
  '\'' :: quoteChar shown '\'' c ++ ['\'']

/-- A character in single quotes. -/
def quotedChar (c : Char) : List Char := quotedCharBy isGraphic c

/-- Is `c` an ASCII character with a visible shape, or the space? -/
def isPlain (c : Char) : Bool := c.toNat < 0x80 && isGraphic c

/-! ### Back quotes -/

/-- The quote that stands around texts without escapes. -/
def backQuote : Char := Char.ofNat 0x60

/-- Can the unit stand between back quotes?  A control character other than the tab cannot, nor can
a back quote, a byte order mark or a stray byte. -/
def fitsBackQuotes : Utf8.Unit → Bool
  | .char c =>
    if c.toNat < 0x80 then c = '\t' || (isGraphic c && c != backQuote) else c.toNat != 0xFEFF
  | .stray _ => false

end BootSector.Text
