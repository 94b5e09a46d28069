import BootSector.Formula.Real
import BootSector.Text.Decimal

/-!
# How numbers with a fraction are written

A number is written in one of three forms: in *general* form with the fewest digits that read back
to it, or with six digits behind the point, either in *fixed* form or in *scientific* form with a
power of ten.  All digits are found by exact arithmetic on the significand and the power of two.

The fewest digits are found by trying one digit, two digits, and so on.  On the grid of decimals
with that many digits the two neighbours of the number are tried; a neighbour reads back to the
number if it lies between the midpoints to the next numbers of binary64, where a midpoint itself
counts if the significand is even.
-/

namespace BootSector.Formula.Real

/-! ### Decimal grids -/

/-- The number of decimal digits of a natural number; one for zero. -/
def digitCount (n : Nat) : Nat := (Text.decimal n).length

/-- The quotient of `m * 2 ^ e` and `10 ^ p`, as a numerator and a denominator. -/
def onGrid (m : Nat) (e p : Int) : Nat × Nat :=
  (m * Nat.pow 2 e.toNat * Nat.pow 10 (-p).toNat, Nat.pow 2 (-e).toNat * Nat.pow 10 p.toNat)

/-- The nearest multiple of `10 ^ p` to `m * 2 ^ e`; of two equally near ones the even multiple. -/
def nearest (m : Nat) (e p : Int) : Text.Decimal :=
  let (a, b) := onGrid m e p
  let below := a / b
  let twice := 2 * (a % b)
  ⟨if b < twice ∨ (twice = b ∧ below % 2 = 1) then below + 1 else below, p⟩

/-- The least power of ten above a positive number `m * 2 ^ e`. -/
def magnitude (m : Nat) (e : Int) : Int :=
  let (a, b) := onGrid m e 0
  if b ≤ a then digitCount (a / b)
  else
    let k := digitCount b - digitCount a
    if a * Nat.pow 10 k < b then -(k : Int) else 1 - k

/-! ### The fewest digits -/

/-- How a decimal compares with `n * 2 ^ e`. -/
def compareScaled (d : Text.Decimal) (n : Nat) (e : Int) : Ordering :=
  let (a, b) := onGrid n e d.exponent
  compare (d.digits * b) a

/-- Does a decimal read back to `m * 2 ^ e`?  Below a significand that is a power of two the next
number is only half as far away. -/
def readsBack (m : Nat) (e : Int) (d : Text.Decimal) : Bool :=
  let low := if m = 0x10000000000000 ∧ -1074 < e then 4 * m - 1 else 4 * m - 2
  let above := compareScaled d low (e - 2)
  let below := compareScaled d (4 * m + 2) (e - 2)
  (above == .gt || (above == .eq && m % 2 == 0)) && (below == .lt || (below == .eq && m % 2 == 0))

/-- The decimal with the fewest digits, at least `n`, that reads back to a positive number below
`10 ^ k`.  At most `more` further digits are tried, and then the nearest decimal is taken. -/
def shortestFrom (m : Nat) (e k : Int) : (more n : Nat) → Text.Decimal
  | 0, n => nearest m e (k - n)
  | more + 1, n =>
    let (a, b) := onGrid m e (k - n)
    let low : Text.Decimal := ⟨a / b, k - n⟩
    let high : Text.Decimal := ⟨a / b + 1, k - n⟩
    match readsBack m e low, readsBack m e high with
    | true, true => nearest m e (k - n)
    | true, false => low
    | false, true => high
    | false, false => shortestFrom m e k more (n + 1)

/-- The shortest decimal that reads back to a positive number `m * 2 ^ e`; seventeen digits always
suffice. -/
def shortest (m : Nat) (e : Int) : Text.Decimal := shortestFrom m e (magnitude m e) 16 1

/-! ### Forms -/

/-- An exponent of at least two digits, with its sign. -/
def exponentText (x : Int) : List Char :=
  let digits := Text.decimal x.natAbs
  (if x < 0 then '-' else '+') :: if digits.length < 2 then '0' :: digits else digits

/-- Digits with a point behind the first one, and a power of ten. -/
def scientificText (digits : List Char) (exponent : Int) : List Char :=
  let fraction := digits.drop 1
  digits.take 1 ++ (if fraction.isEmpty then [] else '.' :: fraction) ++
    'e' :: exponentText exponent

/-- Digits with a point before the last `places` of them. -/
def fixedText (digits : List Char) (places : Nat) : List Char :=
  let digits := List.replicate (places + 1 - digits.length) '0' ++ digits
  let whole := digits.length - places
  digits.take whole ++ (if places = 0 then [] else '.' :: digits.drop whole)

/-- The number of digits behind the point in fixed and in scientific form. -/
def formPlaces : Nat := 6

/-- The number `m * 2 ^ e` in fixed form. -/
def fixed (m : Nat) (e : Int) : List Char :=
  fixedText (Text.decimal (nearest m e (-formPlaces)).digits) formPlaces

/-- The number `m * 2 ^ e` in scientific form. -/
def scientific (m : Nat) (e : Int) : List Char :=
  if m = 0 then scientificText (List.replicate (formPlaces + 1) '0') 0
  else
    let d := nearest m e (magnitude m e - (formPlaces + 1 : Nat))
    let digits := Text.decimal d.digits
    scientificText (digits.take (formPlaces + 1)) (d.exponent + digits.length - 1)

/-- The number `m * 2 ^ e` in general form.  It has a power of ten if that is below -4 or at least
6, and otherwise always a point. -/
def general (m : Nat) (e : Int) : List Char :=
  if m = 0 then ['0', '.', '0']
  else
    let d := shortest m e
    let point := d.exponent + digitCount d.digits
    let digits := ((Text.decimal d.digits).reverse.dropWhile (· == '0')).reverse
    if point < -3 ∨ 6 < point then scientificText digits (point - 1)
    else
      let places := (digits.length - point).toNat
      if places = 0 then
        digits ++ List.replicate (point - digits.length).toNat '0' ++ ['.', '0']
      else fixedText digits places

/-- A number with the sign and in the form that are given; what is not finite has a form of its
own. -/
def written (form : Nat → Int → List Char) (x : Float) : List Char :=
  match parts? x with
  | some (m, e) =>
    let text := form m.natAbs e
    if x.toBits.toNat / 0x8000000000000000 = 0 then text else '-' :: text
  | none => if x != x then "nan".toList else if x < 0 then "-inf".toList else "+inf".toList

end BootSector.Formula.Real
