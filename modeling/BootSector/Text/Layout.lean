import BootSector.Text.Quoted

/-!
# Layouts

A hole of a message template may say how its argument is laid out: whether a number shows its sign,
in which base it is written, how many digits it has at least, how wide the whole is and at which end
it is padded.  A *layout* holds these wishes; its functions write numbers and texts accordingly.

Decimal numbers are written in groups of three digits unless the layout asks for another form, and
zeros that bring a number to its width are digits of the number, so they are grouped as well.
-/

namespace BootSector.Text

/-- **The wishes of a hole.** -/
structure Layout where
  /-- Is the alternate form asked for (`#`)? -/
  alternate : Bool := false
  /-- Does a number show its sign also if it is positive (`+`)? -/
  signed : Bool := false
  /-- Is the padding at the right end (`-`)? -/
  leftAligned : Bool := false
  /-- Does a number without a sign have a blank in its place? -/
  spaced : Bool := false
  /-- Is the padding made of zeros (`0`)? -/
  zeros : Bool := false
  /-- Is the argument written as in a program text? -/
  verbatim : Bool := false
  /-- The least number of characters. -/
  width : Option Nat := none
  /-- The least number of digits of a number, or the greatest number of characters of a text. -/
  precision : Option Nat := none
  deriving DecidableEq, Repr

namespace Layout

/-! ### Padding -/

/-- The number of characters of a byte string. -/
def charCount (bs : Bytes) : Nat := (Utf8.units bs).length

/-- A byte string brought to the width of the layout. -/
def pad (l : Layout) (bs : Bytes) : Bytes :=
  let filler := if l.zeros then '0' else ' '
  let padding := List.replicate (l.width.getD 0 - charCount bs) (Bytes.ofAscii filler)
  if l.leftAligned then bs ++ padding else padding ++ bs

/-- A byte string brought to the width of the layout by blanks. -/
def padBlank (l : Layout) (bs : Bytes) : Bytes := { l with zeros := false }.pad bs

/-! ### Numbers -/

/-- The sign of a number, or what stands in its place. -/
def sign (l : Layout) (n : Int) : List Char :=
  if n < 0 then ['-'] else if l.signed then ['+'] else if l.spaced then [' '] else []

/-- Digits with zeros in front, so that there are at least `least`. -/
def zeroFilled (least : Nat) (digits : List Char) : List Char :=
  List.replicate (least - digits.length) '0' ++ digits

/-- The mark in front of digits of a base in the alternate form. -/
def baseMark (base : Nat) (digits : List Char) : List Char :=
  if base = 16 then ['0', 'x'] else if base = 8 ∧ digits.head? ≠ some '0' then ['0'] else []

/-- The least number of digits of a number in a base.  Zeros that bring the number to its width
leave room for a sign. -/
def baseDigits (l : Layout) (n : Int) : Nat :=
  match l.precision with
  | some p => p
  | none => if l.zeros then l.width.getD 0 - (l.sign n).length else 0

/-- A number in a base, without groups.  Zero has no digit if the precision is zero. -/
def inBase (l : Layout) (base : Nat) (n : Int) : Bytes :=
  if l.precision = some 0 ∧ n = 0 then l.padBlank []
  else
    let digits := zeroFilled (l.baseDigits n) (Nat.toDigits base n.natAbs)
    let mark := if l.alternate then baseMark base digits else []
    l.padBlank (Bytes.ofChars (l.sign n ++ mark ++ digits))

/-- A text with its ASCII letters in upper case. -/
def upperCase (bs : Bytes) : Bytes :=
  bs.map fun b => if 0x61 ≤ b ∧ b ≤ 0x7A then b - 0x20 else b

/-- The least number of digits of a number in groups.  It is counted modulo 256. -/
def groupedDigits (l : Layout) : Nat :=
  match l.precision, l.width with
  | some p, _ => p % 256
  | none, some w =>
    let room := w - (if l.signed || l.spaced then 1 else 0)
    if l.zeros && decide (1 < room) then room % 256 else 1
  | none, none => 1

/-- A number with a comma before every group of three digits.  Zero is a number without digits, to
which the least number of digits is added. -/
def grouped (l : Layout) (n : Int) : List Char :=
  let digits := zeroFilled l.groupedDigits (if n = 0 then [] else decimal n.natAbs)
  l.sign n ++ (groupReversed digits.reverse).reverse

/-- The padding of a number in groups. -/
structure Padding where
  /-- The least number of characters. -/
  width : Nat
  /-- Is the padding at the right end? -/
  behind : Bool
  deriving DecidableEq, Repr

/-- Text brought to the width of a padding by blanks. -/
def Padding.fill (p : Padding) (cs : List Char) : List Char :=
  if p.behind then padRight p.width cs else padLeft p.width cs

/-- The padding of a number in groups, if `kept` is that of the number before it.  The width is
counted modulo 2¹⁶.  A number that has a precision but no width is padded like the number before. -/
def padding (l : Layout) (kept : Option Padding) : Option Padding :=
  match l.width, l.precision with
  | some w, _ => some ⟨w % 0x10000, l.leftAligned⟩
  | none, some _ => kept
  | none, none => none

/-- A number in groups with its padding. -/
def paddedGrouped (l : Layout) (kept : Option Padding) (n : Int) : Bytes :=
  Bytes.ofChars <| match l.padding kept with
    | some p => p.fill (l.grouped n)
    | none => l.grouped n

/-! ### Characters -/

/-- The character of a code point; U+FFFD if there is none. -/
def charOf (n : Int) : Char :=
  if n < 0 then Utf8.replacement else (Utf8.scalar? 0 n.toNat).getD Utf8.replacement

/-- The characters that a quoted text of the layout shows as they are. -/
def shown (l : Layout) : Char → Bool := if l.signed then isPlain else isGraphic

/-- A code point as a character. -/
def character (l : Layout) (n : Int) : Bytes := l.pad (String.utf8EncodeChar (charOf n))

/-- A code point as a character in quotes. -/
def quotedCharacter (l : Layout) (n : Int) : Bytes :=
  l.pad (Bytes.ofChars (quotedCharBy l.shown (charOf n)))

/-- A code point by its number, as in `U+0041`; the alternate form shows the character as well.  A
negative number stands for its remainder modulo 2⁶⁴. -/
def codePoint (l : Layout) (n : Int) : Bytes :=
  let n := n.emod 0x10000000000000000
  let digits := (Nat.toDigits 16 n.toNat).map Char.toUpper
  let shape :=
    match Utf8.scalar? 0 n.toNat with
    | some c => if l.alternate && isGraphic c then [' ', '\'', c, '\''] else []
    | none => []
  l.padBlank (Bytes.ofChars
    ('U' :: '+' :: zeroFilled (max 4 (l.precision.getD 0)) digits ++ shape))

/-! ### Texts -/

/-- A text cut to the precision of the layout. -/
def cut (l : Layout) (bs : Bytes) : Bytes :=
  match l.precision with
  | some p => ((Utf8.units bs).take p).flatMap Utf8.Unit.bytes
  | none => bs

/-- A text as it is. -/
def text (l : Layout) (bs : Bytes) : Bytes := l.pad (l.cut bs)

/-- A text in quotes; in the alternate form in back quotes, if it fits between them. -/
def quotedText (l : Layout) (bs : Bytes) : Bytes :=
  let bs := l.cut bs
  if l.alternate && (Utf8.units bs).all fitsBackQuotes then
    l.pad (String.utf8EncodeChar backQuote ++ bs ++ String.utf8EncodeChar backQuote)
  else l.pad (Bytes.ofChars (quotedBy l.shown bs))

/-- The bytes of a text in hexadecimal.  The alternate form has a mark in front: one for the whole,
or one for each byte if there are blanks between them. -/
def hexText (l : Layout) (bs : Bytes) : Bytes :=
  let bs := bs.take (l.precision.getD bs.length)
  let mark := if l.alternate then ['0', 'x'] else []
  let hex (b : UInt8) := fixedHex lowerHexDigit 2 b.toNat
  if bs.isEmpty then l.pad []
  else l.pad (Bytes.ofChars
    (if l.spaced then [' '].intercalate (bs.map fun b => mark ++ hex b)
      else mark ++ bs.flatMap hex))

end Layout

end BootSector.Text
