import BootSector.Text.Numeral

/-!
# Decimal fractions

A decimal fraction is a string of digits, scaled by a power of ten.  It denotes the binary64 number
that is nearest to it, unless it is past the largest one.
-/

namespace BootSector.Text

/-- The length of the digits, of the given base, at the front of a text. -/
def digitRun (base : Nat) (cs : List Char) : Nat :=
  (cs.takeWhile (fun c => (digitOf? base c).isSome)).length

/-- A decimal fraction: digits and a power of ten. -/
structure Decimal where
  /-- The digits, read as one number. -/
  digits : Nat
  /-- The power of ten that scales them. -/
  exponent : Int
  deriving DecidableEq, Repr

namespace Decimal

/-- The length of the exponent at the front of a text; none if its digits are missing. -/
def exponentRun? : List Char → Option Nat
  | e :: rest =>
    if e = 'e' ∨ e = 'E' then
      let sign := if rest.head? = some '+' ∨ rest.head? = some '-' then 1 else 0
      let digits := digitRun 10 (rest.drop sign)
      if digits = 0 then none else some (1 + sign + digits)
    else some 0
  | [] => some 0

/-- The value of an exponent: the letter, a sign or none, and digits. -/
def exponentValue (cs : List Char) : Int :=
  match cs.drop 1 with
  | '-' :: digits => -((digitsOnto? 10 0 digits).getD 0 : Nat)
  | '+' :: digits => ((digitsOnto? 10 0 digits).getD 0 : Nat)
  | digits => ((digitsOnto? 10 0 digits).getD 0 : Nat)

/-- A fraction whose digits before the point are given, together with the text behind them: the
fraction, and the length of the whole. -/
def read? (whole rest : List Char) : Option (Decimal × Nat) :=
  let point := if rest.head? = some '.' then 1 else 0
  let fraction := if point = 1 then (rest.drop 1).take (digitRun 10 (rest.drop 1)) else []
  let tail := rest.drop (point + fraction.length)
  if whole.isEmpty && fraction.isEmpty then none
  else do
    let run ← exponentRun? tail
    let power := if run = 0 then 0 else exponentValue (tail.take run)
    let digits ← digitsOnto? 10 0 (whole ++ fraction)
    pure (⟨digits, power - fraction.length⟩, whole.length + point + fraction.length + run)

/-- The number that a fraction denotes; none if it is past the largest number. -/
def toFloat? (d : Decimal) : Option Float :=
  let magnitude := d.exponent + (decimal d.digits).length
  if d.digits = 0 ∨ magnitude < -400 then some 0
  else if 400 < magnitude then none
  else
    let x := Float.ofScientific d.digits (d.exponent < 0) d.exponent.natAbs
    if x.isFinite then some x else none

end Decimal

end BootSector.Text
