import BootSector.Formula.Bits
import BootSector.Formula.Expr
import BootSector.Formula.Real

/-!
# The values of formulas

Values of formulas have types, and operators are strict about them: a truth value is no integer, and
only integers and numbers with a fraction mix.  An operation on values that do not fit has no
result.
-/

namespace BootSector.Formula

/-- The functions that every formula knows. -/
inductive Builtin where
  | abs
  | bool
  | int
  | len
  | max
  | min
  /-- A function that can be named, but has no result here. -/
  | other (name : String)
  deriving DecidableEq, Repr

/-- The name of a function. -/
def Builtin.name : Builtin → String
  | abs => "abs"
  | bool => "bool"
  | int => "int"
  | len => "len"
  | max => "max"
  | min => "min"
  | other name => name

/-- **A value.** -/
inductive Value where
  /-- The absence of a value. -/
  | absent
  /-- A truth value. -/
  | bool (b : Bool)
  /-- An integer of any size. -/
  | int (n : Int)
  /-- A number with a fraction. -/
  | real (x : Float)
  /-- A string. -/
  | string (bytes : Bytes)
  /-- A string of bytes. -/
  | bytes (bytes : Bytes)
  /-- A tuple. -/
  | tuple (items : List Value)
  /-- A list. -/
  | list (items : List Value)
  /-- A function. -/
  | function (f : Builtin)

namespace Value

/-- Does the value count as true? -/
def truth : Value → Bool
  | absent => false
  | bool b => b
  | int n => n != 0
  | real x => x != 0
  | string bs | bytes bs => !bs.isEmpty
  | tuple vs | list vs => !vs.isEmpty
  | function _ => true

/-- The integer, if the value is one that fits 32 bits. -/
def small? : Value → Option Int
  | int n => if -0x80000000 ≤ n ∧ n < 0x80000000 then some n else none
  | _ => none

/-! ### Comparison -/

/-- The truth of a comparison, given how the two sides compare. -/
def decideOrder (op : BinaryOp) (o : Ordering) : Bool :=
  match op with
  | .equal => o == .eq
  | .notEqual => o != .eq
  | .less => o == .lt
  | .lessEqual => o != .gt
  | .greater => o == .gt
  | .greaterEqual => o != .lt
  | _ => false

/-- The truth of a comparison of two values that are unequal and have no order. -/
def decideUnequal (op : BinaryOp) : Option Bool :=
  match op with
  | .equal => some false
  | .notEqual => some true
  | _ => none

/-- The truth of a comparison of two values without an order. -/
def decideSame (op : BinaryOp) (same : Bool) : Option Bool :=
  match op with
  | .equal => some same
  | .notEqual => some !same
  | _ => none

/-- How deep sequences may be nested in a comparison. -/
def comparisonDepth : Nat := 10

mutual

/-- The truth of a comparison.  Values of different types are unequal and have no order, but
integers and numbers with a fraction compare by size. -/
def compare? (depth : Nat) (op : BinaryOp) (x y : Value) : Option Bool :=
  match depth with
  | 0 => none
  | depth + 1 =>
    match x, y with
    | int m, int n => some (decideOrder op (compare m n))
    | int m, real b => some (decideOrder op (Real.compareInt m b))
    | real a, int n => some (decideOrder op (Real.compareInt n a).swap)
    | real a, real b => some (decideOrder op (Real.compareReal a b))
    | bool a, bool b => some (decideOrder op (compare a.toNat b.toNat))
    | string a, string b => some (decideOrder op (compare a b))
    | bytes a, bytes b => some (decideOrder op (compare a b))
    | tuple xs, tuple ys => compareItems? depth op xs ys
    | list xs, list ys => compareItems? depth op xs ys
    | absent, absent => decideSame op true
    | function f, function g => decideSame op (f = g)
    | _, _ => decideUnequal op

/-- The truth of a comparison of two sequences: the first pair of unequal items decides, else the
lengths do. -/
def compareItems? (depth : Nat) (op : BinaryOp) (xs ys : List Value) : Option Bool :=
  if xs.length ≠ ys.length ∧ op = .equal then some false
  else if xs.length ≠ ys.length ∧ op = .notEqual then some true
  else
    match xs, ys with
    | x :: xs, y :: ys =>
      match compare? depth .equal x y with
      | some true => compareItems? depth op xs ys
      | some false =>
        match op with
        | .equal => some false
        | .notEqual => some true
        | op => compare? depth op x y
      | none => none
    | xs, ys => some (decideOrder op (compare xs.length ys.length))

end

/-- Is a value a member of a list of items? -/
def memberOf? (x : Value) : List Value → Option Bool
  | [] => some false
  | y :: rest =>
    match compare? comparisonDepth .equal y x with
    | some true => some true
    | some false => memberOf? x rest
    | none => none

/-- Does `bs` hold `part` as a run of neighbouring bytes? -/
def holds (part : Bytes) : Bytes → Bool
  | [] => part.isEmpty
  | b :: rest => part.isPrefixOf (b :: rest) || holds part rest

/-- Is `x` a member of `y`? -/
def member? (x y : Value) : Option Bool :=
  match x, y with
  | x, list ys => memberOf? x ys
  | x, tuple ys => memberOf? x ys
  | string a, string b => some (holds a b)
  | bytes a, bytes b => some (holds a b)
  | int n, bytes b => if 0 ≤ n ∧ n < 256 then some (b.contains (UInt8.ofNat n.toNat)) else none
  | _, _ => none

/-! ### Arithmetic -/

/-- How many items a repetition may make. -/
def repeatLimit : Nat := 0x40000000

/-- A sequence, a number of times; nothing if the number is not positive. -/
def repeat? {α : Type} (items : List α) (n : Int) : Option (List α) :=
  if items.isEmpty then some []
  else match small? (.int n) with
    | none => none
    | some n =>
      if n < 1 then some []
      else if repeatLimit ≤ items.length * n.toNat then none
      else some (List.replicate n.toNat items).flatten

/-- Two operands as numbers with a fraction, if one of them is one and the other is a number. -/
def reals? : Value → Value → Option (Float × Float)
  | int m, real y => (Real.ofInt? m).map (·, y)
  | real x, int n => (Real.ofInt? n).map (x, ·)
  | real x, real y => some (x, y)
  | _, _ => none

/-- The sum of numbers, or two sequences of one type after another.  Strings of bytes have no sum,
but literals of them do (see `bytesLiteral?`). -/
def add? (x y : Value) : Option Value :=
  match x, y with
  | int m, int n => some (.int (m + n))
  | string a, string b => some (.string (a ++ b))
  | list xs, list ys => some (.list (xs ++ ys))
  | tuple xs, tuple ys => some (.tuple (xs ++ ys))
  | x, y => (reals? x y).map fun (a, b) => .real (a + b)

/-- The difference of numbers. -/
def subtract? (x y : Value) : Option Value :=
  match x, y with
  | int m, int n => some (.int (m - n))
  | x, y => (reals? x y).map fun (a, b) => .real (a - b)

/-- The product of numbers, or a sequence a number of times. -/
def multiply? (x y : Value) : Option Value :=
  match x, y with
  | int m, int n => some (.int (m * n))
  | int n, string a | string a, int n => (repeat? a n).map .string
  | int n, bytes a | bytes a, int n => (repeat? a n).map .bytes
  | int n, list xs | list xs, int n => (repeat? xs n).map .list
  | int n, tuple xs | tuple xs, int n => (repeat? xs n).map .tuple
  | x, y => (reals? x y).map fun (a, b) => .real (a * b)

/-- Two operands of a division as numbers with a fraction, if the divisor is not zero. -/
def divisors? (x y : Value) : Option (Float × Float) :=
  (match x, y with
    | int m, int n => do pure ((← Real.ofInt? m), (← Real.ofInt? n))
    | x, y => reals? x y).filter fun (_, b) => b != 0

/-- The quotient of numbers, with its fraction. -/
def divide? (x y : Value) : Option Value := (divisors? x y).map fun (a, b) => .real (a / b)

/-- The quotient of numbers, rounded down. -/
def floorDivide? (x y : Value) : Option Value :=
  match x, y with
  | int m, int n => if n = 0 then none else some (.int (m.fdiv n))
  | x, y => (divisors? x y).map fun (a, b) => .real (a / b).floor

/-- The remainder of the division that rounds down. -/
def modulo? (x y : Value) : Option Value :=
  match x, y with
  | int m, int n => if n = 0 then none else some (.int (m.fmod n))
  | x, y => (divisors? x y).map fun (a, b) => .real (Real.modulo a b)

/-- A bitwise operation on integers. -/
def bitwise? (f : Int → Int → Int) (x y : Value) : Option Value :=
  match x, y with
  | int m, int n => some (.int (f m n))
  | _, _ => none

/-- The least number of places by which nothing can be shifted to the left. -/
def shiftLimit : Int := 512

/-- An integer shifted to the left. -/
def shiftLeft? (x y : Value) : Option Value :=
  match x, y.small? with
  | int m, some n => if 0 ≤ n ∧ n < shiftLimit then some (.int (m * Int.pow 2 n.toNat)) else none
  | _, _ => none

/-- An integer shifted to the right. -/
def shiftRight? (x y : Value) : Option Value :=
  match x, y.small? with
  | int m, some n => if 0 ≤ n then some (.int (m >>> n.toNat)) else none
  | _, _ => none

/-- The result of an operator in front of an operand. -/
def unary? (op : UnaryOp) (x : Value) : Option Value :=
  match op, x with
  | .not, x => some (.bool !x.truth)
  | .positive, int n => some (.int n)
  | .negative, int n => some (.int (-n))
  | .complement, int n => some (.int (Formula.complement n))
  | .positive, real a => some (.real a)
  | .negative, real a => some (.real (-a))
  | _, _ => none

/-! ### Sequences -/

/-- The member of a sequence at a position, which counts from the end if it is negative. -/
def itemAt? {α : Type} (items : List α) (i : Int) : Option α :=
  let i := if i < 0 then i + items.length else i
  if i < 0 then none else items[i.toNat]?

/-- The member of a value at a position. -/
def index? (x i : Value) : Option Value :=
  match x, i.small? with
  | string bs, some n => (itemAt? bs n).map fun b => .string [b]
  | bytes bs, some n => (itemAt? bs n).map fun b => .bytes [b]
  | list vs, some n => itemAt? vs n
  | tuple vs, some n => itemAt? vs n
  | _, _ => none

/-- The members of a value that can be enumerated. -/
def items? : Value → Option (List Value)
  | list vs | tuple vs => some vs
  | _ => none

/-- The number of members of a sequence, or of bytes of a string. -/
def len? : Value → Option Nat
  | string bs | bytes bs => some bs.length
  | list vs | tuple vs => some vs.length
  | _ => none

end Value

end BootSector.Formula
