/-!
# Tables of code point ranges

A class of characters is given as the increasing list of the ranges that make it up.  The order lets
a look-up stop at the first range that starts past the code point.
-/

namespace BootSector.Text

/-- Closed, disjoint ranges of code points, in increasing order. -/
abbrev Ranges := List (Nat × Nat)

/-- Does some range of the table hold `n`? -/
def Ranges.contains : Ranges → Nat → Bool
  | [], _ => false
  | (first, last) :: rest, n =>
    if n < first then false else if n ≤ last then true else Ranges.contains rest n

end BootSector.Text
