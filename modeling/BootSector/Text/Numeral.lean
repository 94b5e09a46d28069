import BootSector.Bytes

/-!
# Numerals

How numbers are written (decimal with or without groups of three digits, hexadecimal of a fixed
width) and how digits are read.
-/

namespace BootSector.Text

/-! ### Writing -/

/-- The decimal numeral of a natural number. -/
def decimal (n : Nat) : List Char := Nat.toDigits 10 n

/-- The decimal numeral of an integer, with a minus sign where it is negative. -/
def signedDecimal (n : Int) : List Char :=
  if n < 0 then '-' :: decimal n.natAbs else decimal n.natAbs

/-- Separates groups of three digits by commas; the digits come with the last one first. -/
def groupReversed : List Char → List Char
  | a :: b :: c :: d :: rest => a :: b :: c :: ',' :: groupReversed (d :: rest)
  | digits => digits

/-- The hexadecimal digit of a number below sixteen. -/
def lowerHexDigit (n : Nat) : Char :=
  if n < 10 then Char.ofNat (n + 48) else Char.ofNat (n + 87)

/-- The hexadecimal digit of a number below sixteen, in upper case. -/
def upperHexDigit (n : Nat) : Char :=
  if n < 10 then Char.ofNat (n + 48) else Char.ofNat (n + 55)

/-- The last `width` hexadecimal digits of `n`, written with the given digits. -/
def fixedHex (digit : Nat → Char) : Nat → Nat → List Char
  | 0, _ => []
  | width + 1, n => digit (n / Nat.pow 16 width % 16) :: fixedHex digit width n

/-- A text brought to the given width by blanks in front of it. -/
def padLeft (width : Nat) (cs : List Char) : List Char :=
  List.replicate (width - cs.length) ' ' ++ cs

/-- A text brought to the given width by blanks behind it. -/
def padRight (width : Nat) (cs : List Char) : List Char :=
  cs ++ List.replicate (width - cs.length) ' '

theorem length_fixedHex (digit : Nat → Char) (width n : Nat) :
    (fixedHex digit width n).length = width := by
  induction width with
  | zero => rfl
  | succ width ih => simp [fixedHex, ih]

/-! ### Reading -/

/-- The value of an ASCII digit or letter, letters of either case counting from ten. -/
def digitValue? (c : Char) : Option Nat :=
  if c.isDigit then some (c.toNat - 48)
  else if c.isLower then some (c.toNat - 87)
  else if c.isUpper then some (c.toNat - 55)
  else none

/-- The value of an ASCII digit of the given base. -/
def digitOf? (base : Nat) (c : Char) : Option Nat :=
  (digitValue? c).filter (· < base)

/-- The value of a string of digits behind digits of value `high`; none if a digit is not of the
base. -/
def digitsOnto? (base : Nat) : Nat → List Char → Option Nat
  | high, [] => some high
  | high, c :: rest =>
    match digitOf? base c with
    | some d => digitsOnto? base (high * base + d) rest
    | none => none

/-- The value of a non-empty string of digits of the given base. -/
def numeral? (base : Nat) (cs : List Char) : Option Nat :=
  if cs.isEmpty then none else digitsOnto? base 0 cs

end BootSector.Text
