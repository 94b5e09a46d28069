import BootSector.Formula.Real.Written
import BootSector.Formula.Value
import BootSector.Text.Quoted

/-!
# How values are written

Every value has a written form, in which strings stand between quotes.  The operator `%` on a string
uses it: it replaces the conversions of the string, a per cent sign and a letter each, by written
values.  With a tuple on its right the conversions take the items one by one, otherwise there is one
value for one conversion, and no value may be left over.
-/

namespace BootSector.Formula

namespace Value

mutual

/-- The written form of a value. -/
def written : Value → Bytes
  | absent => Bytes.ofString "None"
  | bool b => Bytes.ofString (if b then "True" else "False")
  | int n => Bytes.ofChars (Text.signedDecimal n)
  | real x => Bytes.ofChars (Real.written Real.general x)
  | string bs => Bytes.ofChars (Text.quoted bs)
  | bytes bs => Bytes.ofChars ('b' :: Text.quoted bs)
  | tuple vs =>
    Bytes.ofChars ['('] ++ writtenItems vs ++
      Bytes.ofChars (if vs.length = 1 then [',', ')'] else [')'])
  | list vs => Bytes.ofChars ['['] ++ writtenItems vs ++ Bytes.ofChars [']']
  | function f =>
    Bytes.ofString "<built-in function " ++ Bytes.ofString f.name ++ Bytes.ofString ">"

/-- The written forms of several values, with commas between them. -/
def writtenItems : List Value → Bytes
  | [] => []
  | [v] => v.written
  | v :: rest => v.written ++ Bytes.ofChars [',', ' '] ++ writtenItems rest

end

/-- A value as a text: a string as it is, everything else in its written form. -/
def toText : Value → Bytes
  | string bs => bs
  | v => v.written

/-- The integer of a number, cut toward zero. -/
def toInteger? : Value → Option Int
  | int n => some n
  | real x => Real.toInt? x
  | _ => none

/-- A number as a number with a fraction. -/
def toReal? : Value → Option Float
  | int n => some (Float.ofInt n)
  | real x => some x
  | _ => none

/-- The character of a code point, or of a string of one character.  A code point without a
character stands for U+FFFD. -/
def toChar? : Value → Option Char
  | int n =>
    if 0 ≤ n ∧ n ≤ 0x10FFFF then some ((Text.Utf8.scalar? 0 n.toNat).getD Text.Utf8.replacement)
    else none
  | string bs =>
    match Text.Utf8.units bs with
    | [u] => some u.toChar
    | _ => none
  | _ => none

end Value

/-! ### Conversions -/

/-- An integer in a base, with a minus sign where it is negative. -/
def signedInBase (base : Nat) (n : Int) : List Char :=
  (if n < 0 then ['-'] else []) ++ Nat.toDigits base n.natAbs

/-- The form of a number with a fraction that a letter asks for, in lower case. -/
def realForm? (letter : Char) : Option (Nat → Int → List Char) :=
  match letter with
  | 'e' => some Real.scientific
  | 'f' => some Real.fixed
  | 'g' => some Real.general
  | _ => none

/-- A number with a fraction in the form of an upper-case letter.  For `F` there is no form; the
conversion itself is shown, unless the number is not finite. -/
def upperReal? (letter : Char) (x : Float) : Option (List Char) :=
  let finite := x.isFinite
  if letter = 'F' then some (if finite then ['%', 'F'] else Real.written Real.fixed x)
  else (realForm? letter.toLower).map fun form =>
    if finite then (Real.written form x).map Char.toUpper else Real.written form x

/-- A value as the conversion of a letter writes it; none if it has no such form. -/
def converted? (letter : Char) (v : Value) : Option Bytes :=
  match letter with
  | 's' => some v.toText
  | 'r' => some v.written
  | 'd' | 'i' => v.toInteger?.map fun n => Bytes.ofChars (signedInBase 10 n)
  | 'o' => v.toInteger?.map fun n => Bytes.ofChars (signedInBase 8 n)
  | 'x' => v.toInteger?.map fun n => Bytes.ofChars (signedInBase 16 n)
  | 'X' => v.toInteger?.map fun n => Bytes.ofChars ((signedInBase 16 n).map Char.toUpper)
  | 'e' | 'f' | 'g' => do
    let x ← v.toReal?
    let form ← realForm? letter
    pure (Bytes.ofChars (Real.written form x))
  | 'E' | 'F' | 'G' => do
    let x ← v.toReal?
    pure (Bytes.ofChars (← upperReal? letter x))
  | 'c' => v.toChar?.map String.utf8EncodeChar
  | _ => none

/-- Replaces the conversions of a text, from left to right, by written values; `done` holds the text
so far, the latest byte first.  Two per cent signs stand for one. -/
def interpolateOnto? (done : Bytes) : List Value → Bytes → Option Bytes
  | values, [] => if values.isEmpty then some done.reverse else none
  | values, b :: rest =>
    if b = Bytes.ofAscii '%' then
      match rest with
      | [] => none
      | letter :: rest =>
        if letter = Bytes.ofAscii '%' then interpolateOnto? (letter :: done) values rest
        else match values with
          | [] => none
          | v :: values =>
            match converted? (Char.ofNat letter.toNat) v with
            | some bs => interpolateOnto? (bs.reverse ++ done) values rest
            | none => none
    else interpolateOnto? (b :: done) values rest

/-- A string with its conversions replaced by a value, or by the items of a tuple. -/
def interpolate? (text : Bytes) (v : Value) : Option Bytes :=
  match v with
  | .tuple vs => interpolateOnto? [] vs text
  | v => interpolateOnto? [] [v] text

end BootSector.Formula
