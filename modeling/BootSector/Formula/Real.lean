/-!
# Numbers with a fraction

A division of integers, and a literal with a point or an exponent, is a number of binary64.  Such a
number never is the value of a predefinition, but it can be compared with an integer and be cut to
one; both are exact, through the integer significand and the power of two that make up the number.
-/

namespace BootSector.Formula.Real

/-- The significand and the power of two of a finite number. -/
def parts? (x : Float) : Option (Int × Int) :=
  let bits := x.toBits.toNat
  let power := bits / 0x10000000000000 % 0x800
  let fraction := bits % 0x10000000000000
  let sign : Int := if bits / 0x8000000000000000 = 0 then 1 else -1
  if power = 2047 then none
  else if power = 0 then some (sign * (fraction : Nat), -1074)
  else some (sign * (fraction + 0x10000000000000 : Nat), (power : Nat) - 1075)

/-- The nearest number to an integer; none if the integer is past the largest number. -/
def ofInt? (n : Int) : Option Float :=
  let x := Float.ofInt n
  if x.isFinite then some x else none

/-- The number without its fraction; none if it is not finite. -/
def toInt? (x : Float) : Option Int :=
  (parts? x).map fun (m, e) =>
    if 0 ≤ e then m * Int.pow 2 e.toNat else m.tdiv (Int.pow 2 (-e).toNat)

/-- How an integer compares with a number.  Every integer is below one that is not a number. -/
def compareInt (n : Int) (x : Float) : Ordering :=
  match parts? x with
  | some (m, e) =>
    if 0 ≤ e then compare n (m * Int.pow 2 e.toNat) else compare (n * Int.pow 2 (-e).toNat) m
  | none => if x < 0 then .gt else .lt

/-- How two numbers compare.  What is not a number is above all that is. -/
def compareReal (x y : Float) : Ordering :=
  if x > y then .gt
  else if x < y then .lt
  else if x == y then .eq
  else if x == x then .lt
  else if y == y then .gt
  else .eq

/-- The remainder of a division that rounds toward zero. -/
def remainder (x y : Float) : Float :=
  match parts? x, parts? y with
  | some (m, e), some (n, f) =>
    let least := min e f
    let r := (m * Int.pow 2 (e - least).toNat).tmod (n * Int.pow 2 (f - least).toNat)
    (Float.ofInt r).scaleB least
  | some _, none => if y == y then x else y
  | none, _ => 0.0 / 0.0

/-- The remainder that has the sign of the divisor. -/
def modulo (x y : Float) : Float :=
  let z := remainder x y
  if decide (x < 0) != decide (y < 0) && z != 0 then z + y else z

end BootSector.Formula.Real
