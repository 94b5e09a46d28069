import BootSector.Formula.Written

/-!
# Evaluating formulas

A formula is evaluated in an environment that gives integers to names.  Names of the environment
come before the names that every formula knows, so those can be redefined.  All names of a formula
have to be known, also those in a part that is not evaluated.

An assembler takes any evaluator (`Evaluator`).  The one here, `evaluate?`, is what it has unless it
is given another: it covers operators, conditions, tuples, lists, and the functions on numbers.
-/

namespace BootSector.Formula

/-! ### Names -/

/-- Integers for names; an earlier entry hides later ones of the same name. -/
abbrev Env := List (Bytes × Int)

/-- **An evaluator**: the integer that a text has as a formula in an environment, if it has one. -/
abbrev Evaluator := Env → Bytes → Option Int

/-- The integer of a name. -/
def Env.find? : Env → Bytes → Option Int
  | [], _ => none
  | (n, v) :: rest, name => if n = name then some v else Env.find? rest name

/-- The names of the functions that have no result here. -/
def otherBuiltins : List String :=
  ["all", "any", "bytes", "chr", "dict", "dir", "enumerate", "fail", "float", "getattr", "hasattr",
   "hash", "list", "ord", "print", "range", "repr", "reversed", "sorted", "str", "tuple", "type",
   "zip"]

/-- The values that every formula knows by name. -/
def commonValues : List (Bytes × Value) :=
  [(Bytes.ofString "None", .absent), (Bytes.ofString "True", .bool true),
   (Bytes.ofString "False", .bool false), (Bytes.ofString "abs", .function .abs),
   (Bytes.ofString "bool", .function .bool), (Bytes.ofString "int", .function .int),
   (Bytes.ofString "len", .function .len), (Bytes.ofString "max", .function .max),
   (Bytes.ofString "min", .function .min)] ++
  otherBuiltins.map fun n => (Bytes.ofString n, .function (.other n))

/-- The value of a name. -/
def lookup? (env : Env) (name : Bytes) : Option Value :=
  match env.find? name with
  | some n => some (.int n)
  | none => (commonValues.find? (·.1 == name)).map (·.2)

/-! ### Functions -/

/-- The digits of an integer text with its base.  Base 0 means that a mark decides the base; without
a mark the base is ten, and then the text has no zero in front unless it is all zeros. -/
def unmarked? (base : Nat) (cs : List Char) : Option (Nat × List Char) :=
  let marked (b : Nat) (rest digits : List Char) : Option (Nat × List Char) :=
    if rest.isEmpty then none
    else if base = 0 ∨ base = b then some (b, rest)
    else some (base, digits)
  match cs with
  | '0' :: x :: rest =>
    let mark :=
      if x = 'o' ∨ x = 'O' then marked 8 rest cs
      else if x = 'x' ∨ x = 'X' then marked 16 rest cs
      else if x = 'b' ∨ x = 'B' then marked 2 rest cs
      else none
    match mark with
    | some r => some r
    | none =>
      if base = 0 then if (x :: rest).all (· == '0') then some (10, cs) else none
      else some (base, cs)
  | _ => some (if base = 0 then 10 else base, cs)

/-- The integer that a text spells in a base. -/
def readInt? (base : Nat) (text : Bytes) : Option Int :=
  let cs := Text.Utf8.decode text
  let (negative, cs) :=
    match cs with
    | '+' :: rest => (false, rest)
    | '-' :: rest => (true, rest)
    | cs => (false, cs)
  match unmarked? base cs with
  | none => none
  | some (base, digits) =>
    (Text.numeral? base digits).map fun n => if negative then -(n : Int) else n

/-- The integer of a truth value or a number, cut toward zero. -/
def toInt? : Value → Option Int
  | .bool b => some (if b then 1 else 0)
  | v => v.toInteger?

/-- A value as an integer; a text is read in a base, which is ten unless it is given. -/
def convert? (x : Value) (base : Option Value) : Option Value :=
  match x, base with
  | .string s, none => (readInt? 10 s).map .int
  | .string s, some b =>
    match b.small? with
    | some b =>
      if b = 0 ∨ (2 ≤ b ∧ b ≤ 36) then (readInt? b.toNat s).map .int else none
    | none => none
  | x, none => (toInt? x).map .int
  | _, some _ => none

/-- The item whose key wins all comparisons against the keys of the items before it. -/
def extremum? (op : BinaryOp) : (best bestKey : Value) → List (Value × Value) → Option Value
  | best, _, [] => some best
  | best, bestKey, (x, key) :: rest =>
    match Value.compare? Value.comparisonDepth op key bestKey with
    | some true => extremum? op x key rest
    | some false => extremum? op best bestKey rest
    | none => none

/-- The greatest or least of several values, or of the members of one. -/
def extreme? (op : BinaryOp) (key : Value → Option Value) (args : List Value) : Option Value := do
  let items ← match args with
    | [x] => x.items?
    | args => some args
  let keyed ← items.mapM fun x => do pure (x, (← key x))
  match keyed with
  | [] => none
  | (x, k) :: rest => extremum? op x k rest

/-- The result of a function on arguments by position. -/
def Builtin.applied? (f : Builtin) (args : List Value) : Option Value :=
  match f, args with
  | abs, [.int n] => some (.int n.natAbs)
  | abs, [.real x] => some (.real x.abs)
  | bool, [] => some (.bool false)
  | bool, [x] => some (.bool x.truth)
  | int, [x] => convert? x none
  | int, [x, base] => convert? x (some base)
  | len, [x] => x.len?.map fun n => .int n
  | max, args => extreme? .greater some args
  | min, args => extreme? .less some args
  | _, _ => none

/-- The result of a function on arguments by position and by name. -/
def Builtin.call? (f : Builtin) (args : List Value) (named : List (Bytes × Value)) : Option Value :=
  match f, args, named with
  | f, args, [] => f.applied? args
  | int, [x], [(name, base)] =>
    if name = Bytes.ofString "base" then convert? x (some base) else none
  | int, [], [(name, x)] => if name = Bytes.ofString "x" then convert? x none else none
  | int, [], [(first, a), (second, b)] =>
    if first = Bytes.ofString "x" ∧ second = Bytes.ofString "base" then convert? a (some b)
    else if first = Bytes.ofString "base" ∧ second = Bytes.ofString "x" then convert? b (some a)
    else none
  | max, args, [(name, .function key)] =>
    if name = Bytes.ofString "key" then extreme? .greater (fun x => key.applied? [x]) args else none
  | min, args, [(name, .function key)] =>
    if name = Bytes.ofString "key" then extreme? .less (fun x => key.applied? [x]) args else none
  | _, _, _ => none

/-! ### Evaluation -/

/-- The result of an operator that evaluates both operands. -/
def binary? (op : BinaryOp) (x y : Value) : Option Value :=
  match op with
  | .add => x.add? y
  | .subtract => x.subtract? y
  | .multiply => x.multiply? y
  | .divide => x.divide? y
  | .floorDivide => x.floorDivide? y
  | .modulo =>
    match x with
    | .string text => (interpolate? text y).map .string
    | x => x.modulo? y
  | .bitAnd => x.bitwise? bitAnd y
  | .bitOr => x.bitwise? bitOr y
  | .bitXor => x.bitwise? bitXor y
  | .shiftLeft => x.shiftLeft? y
  | .shiftRight => x.shiftRight? y
  | .member => (x.member? y).map .bool
  | .notMember => (x.member? y).map fun b => .bool !b
  | .and => some (if x.truth then y else x)
  | .or => some (if x.truth then x else y)
  | op => (x.compare? Value.comparisonDepth op y).map .bool

mutual

/-- **The value of a formula.** -/
def eval? (env : Env) : Expr → Option Value
  | .int n => some (.int n)
  | .decimal d => d.toFloat?.map .real
  | .string bs => some (.string bs)
  | .bytes bs => some (.bytes bs)
  | .name n => lookup? env n
  | .unary op x =>
    match eval? env x with
    | some v => v.unary? op
    | none => none
  | .binary op x y =>
    if let some bs := (Expr.binary op x y).bytesLiteral? then some (.bytes bs)
    else match eval? env x with
    | none => none
    | some v =>
      match op, v.truth with
      | .and, false => some v
      | .or, true => some v
      | op, _ =>
        match eval? env y with
        | some w => binary? op v w
        | none => none
  | .cond c x y =>
    match eval? env c with
    | some v => if v.truth then eval? env x else eval? env y
    | none => none
  | .tuple items => (evalAll? env items).map .tuple
  | .list items => (evalAll? env items).map .list
  | .index x i =>
    match eval? env x, eval? env i with
    | some v, some w => v.index? w
    | _, _ => none
  | .call f args named =>
    match eval? env f, evalAll? env args, evalNamed? env named with
    | some (.function f), some args, some named => f.call? args named
    | _, _, _ => none

/-- The values of several formulas. -/
def evalAll? (env : Env) : List Expr → Option (List Value)
  | [] => some []
  | x :: rest =>
    match eval? env x, evalAll? env rest with
    | some v, some vs => some (v :: vs)
    | _, _ => none

/-- The values of arguments given by name. -/
def evalNamed? (env : Env) : List (Bytes × Expr) → Option (List (Bytes × Value))
  | [] => some []
  | (n, x) :: rest =>
    match eval? env x, evalNamed? env rest with
    | some v, some vs => some ((n, v) :: vs)
    | _, _ => none

end

/-- Does the formula hold a decimal literal past the largest number? -/
def decimalsInRange (ls : List Lexeme) : Bool :=
  ls.all fun
    | .decimal d => d.toFloat?.isSome
    | _ => true

/-- **The integer that a text evaluates to as a formula**; none if the text is no formula, if it
names something unknown, if it has no value, or if the value is no integer. -/
def evaluate? (env : Env) (text : Bytes) : Option Int := do
  let ls ← scan? text
  if !decimalsInRange ls then none
  let e ← parse? ls
  if !e.names.all (fun n => (lookup? env n).isSome) then none
  match eval? env e with
  | some (.int n) => some n
  | _ => none

end BootSector.Formula
