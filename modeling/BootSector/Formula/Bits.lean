/-!
# Integers as bit strings

The bitwise operations of integers of any size.  A negative integer is a bit string that starts with
infinitely many ones: `-1 - n` has a one exactly where `n` has a zero.
-/

namespace BootSector.Formula

/-- The integer with every bit changed. -/
def complement (x : Int) : Int := -1 - x

/-- The bits of `m` that are not bits of `n`. -/
def without (m n : Nat) : Nat := m ^^^ (m &&& n)

/-- The bits that both integers have. -/
def bitAnd : Int → Int → Int
  | .ofNat m, .ofNat n => .ofNat (m &&& n)
  | .ofNat m, .negSucc n => .ofNat (without m n)
  | .negSucc m, .ofNat n => .ofNat (without n m)
  | .negSucc m, .negSucc n => .negSucc (m ||| n)

/-- The bits that one integer has, or both. -/
def bitOr (x y : Int) : Int := complement (bitAnd (complement x) (complement y))

/-- The bits that exactly one integer has. -/
def bitXor : Int → Int → Int
  | .ofNat m, .ofNat n => .ofNat (m ^^^ n)
  | .ofNat m, .negSucc n => .negSucc (m ^^^ n)
  | .negSucc m, .ofNat n => .negSucc (m ^^^ n)
  | .negSucc m, .negSucc n => .ofNat (m ^^^ n)

end BootSector.Formula
