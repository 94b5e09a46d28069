import BootSector.Formula.Lexeme

/-!
# Formulas as trees

The grammar of formulas, from the loosest to the tightest: conditional, `or`, `and`, `not`,
comparison, `|`, `^`, `&`, shifts, sums, products, signs, and calls and subscripts.  Binary
operators group to the left, and comparisons do not group at all.

The reader is a recursive descent over the lexemes.  Each call passes on less fuel, and the fuel
that `parse?` starts with is more than any reading of the lexemes can use: between two lexemes the
descent goes through the levels of the grammar at most once.
-/

namespace BootSector.Formula

/-- The operators in front of an operand. -/
inductive UnaryOp where
  | positive
  | negative
  | complement
  | not
  deriving DecidableEq, Repr

/-- The operators between two operands. -/
inductive BinaryOp where
  | add
  | subtract
  | multiply
  | divide
  | floorDivide
  | modulo
  | bitAnd
  | bitOr
  | bitXor
  | shiftLeft
  | shiftRight
  | equal
  | notEqual
  | less
  | lessEqual
  | greater
  | greaterEqual
  | member
  | notMember
  | and
  | or
  deriving DecidableEq, Repr

/-- **A formula.** -/
inductive Expr where
  /-- An integer. -/
  | int (n : Nat)
  /-- A number with a fraction or an exponent. -/
  | decimal (d : Text.Decimal)
  /-- A string. -/
  | string (bytes : Bytes)
  /-- A string of bytes. -/
  | bytes (bytes : Bytes)
  /-- A name. -/
  | name (n : Bytes)
  /-- An operator and its operand. -/
  | unary (op : UnaryOp) (x : Expr)
  /-- An operator between two operands. -/
  | binary (op : BinaryOp) (x y : Expr)
  /-- One of two formulas, chosen by a condition. -/
  | cond (test yes no : Expr)
  /-- A tuple. -/
  | tuple (items : List Expr)
  /-- A list. -/
  | list (items : List Expr)
  /-- A member of a sequence. -/
  | index (x i : Expr)
  /-- A call, with arguments by position and then by name. -/
  | call (f : Expr) (args : List Expr) (named : List (Bytes × Expr))

/-! ### Levels of binary operators -/

/-- The level of an operator, from 0 for `or` to 9 for products; level 2 is that of `not`. -/
def BinaryOp.level : BinaryOp → Nat
  | or => 0
  | and => 1
  | equal | notEqual | less | lessEqual | greater | greaterEqual | member | notMember => 3
  | bitOr => 4
  | bitXor => 5
  | bitAnd => 6
  | shiftLeft | shiftRight => 7
  | add | subtract => 8
  | multiply | divide | floorDivide | modulo => 9

/-- The level of the comparisons. -/
def comparisonLevel : Nat := 3

/-- The binary operator of a mark. -/
def ofMark? : Mark → Option BinaryOp
  | .plus => some .add
  | .minus => some .subtract
  | .star => some .multiply
  | .slash => some .divide
  | .slashSlash => some .floorDivide
  | .percent => some .modulo
  | .ampersand => some .bitAnd
  | .bar => some .bitOr
  | .caret => some .bitXor
  | .shiftLeft => some .shiftLeft
  | .shiftRight => some .shiftRight
  | .equal => some .equal
  | .notEqual => some .notEqual
  | .less => some .less
  | .lessEqual => some .lessEqual
  | .greater => some .greater
  | .greaterEqual => some .greaterEqual
  | _ => none

/-- The binary operator at the front of the lexemes, and the lexemes behind it. -/
def frontOperator? : List Lexeme → Option (BinaryOp × List Lexeme)
  | .mark m :: rest => (ofMark? m).map (·, rest)
  | .keyword .orWord :: rest => some (.or, rest)
  | .keyword .andWord :: rest => some (.and, rest)
  | .keyword .inWord :: rest => some (.member, rest)
  | .keyword .notWord :: .keyword .inWord :: rest => some (.notMember, rest)
  | _ => none

/-! ### Reading -/

/-- What a reader returns: a result and the lexemes behind it. -/
abbrev Read (α : Type) := Option (α × List Lexeme)

/-- The greatest number of arguments by position, and of arguments by name, in a call. -/
def argumentLimit : Nat := 255

/-- The end of a call, with the lexemes behind it.  The arguments come with the latest first. -/
def callEnd? (args : List Expr) (named : List (Bytes × Expr)) (rest : List Lexeme) :
    Read (List Expr × List (Bytes × Expr)) :=
  if args.length ≤ argumentLimit ∧ named.length ≤ argumentLimit then
    some ((args.reverse, named.reverse), rest)
  else none

mutual

/-- A formula that is no bare tuple. -/
def test? (fuel : Nat) (ls : List Lexeme) : Read Expr :=
  match fuel with
  | 0 => none
  | fuel + 1 =>
    match operand? fuel 0 ls with
    | some (x, .keyword .ifWord :: rest) =>
      match operand? fuel 0 rest with
      | some (c, .keyword .elseWord :: rest) =>
        match test? fuel rest with
        | some (y, rest) => some (.cond c x y, rest)
        | none => none
      | _ => none
    | r => r

/-- A formula of the given level of binary operators. -/
def operand? (fuel level : Nat) (ls : List Lexeme) : Read Expr :=
  match fuel with
  | 0 => none
  | fuel + 1 =>
    if 9 < level then primary? fuel ls
    else match level, ls with
      | 2, .keyword .notWord :: rest =>
        match operand? fuel 2 rest with
        | some (x, rest) => some (.unary .not x, rest)
        | none => none
      | _, _ =>
        match operand? fuel (level + 1) ls with
        | some (x, rest) => operators? fuel level true x rest
        | none => none

/-- The operators of at least the given level that follow the operand `x`, with their right
operands. `first` tells whether none was read yet: a second comparison may not follow. -/
def operators? (fuel level : Nat) (first : Bool) (x : Expr) (ls : List Lexeme) : Read Expr :=
  match fuel with
  | 0 => none
  | fuel + 1 =>
    match frontOperator? ls with
    | none =>
      match ls with
      | .keyword .notWord :: _ => none
      | _ => some (x, ls)
    | some (op, rest) =>
      if op.level < level then some (x, ls)
      else if !first && op.level == comparisonLevel then none
      else match operand? fuel (op.level + 1) rest with
        | some (y, rest) => operators? fuel level false (.binary op x y) rest
        | none => none

/-- A literal, a name, a bracketed formula or a sign, with the calls and subscripts behind it. -/
def primary? (fuel : Nat) (ls : List Lexeme) : Read Expr :=
  match fuel with
  | 0 => none
  | fuel + 1 =>
    match ls with
    | .int n :: rest => suffixes? fuel (.int n) rest
    | .decimal d :: rest => suffixes? fuel (.decimal d) rest
    | .string bs :: rest => suffixes? fuel (.string bs) rest
    | .bytes bs :: rest => suffixes? fuel (.bytes bs) rest
    | .name n :: rest => suffixes? fuel (.name n) rest
    | .mark .plus :: rest => signed? fuel .positive rest
    | .mark .minus :: rest => signed? fuel .negative rest
    | .mark .tilde :: rest => signed? fuel .complement rest
    | .mark .openBracket :: rest =>
      match items? fuel .closeBracket [] rest with
      | some ((items, _), rest) => suffixes? fuel (.list items) rest
      | none => none
    | .mark .openParen :: rest =>
      match items? fuel .closeParen [] rest with
      | some (([x], false), rest) => suffixes? fuel x rest
      | some ((items, _), rest) => suffixes? fuel (.tuple items) rest
      | none => none
    | _ => none

/-- The operand of a sign, whose own calls and subscripts bind tighter. -/
def signed? (fuel : Nat) (op : UnaryOp) (ls : List Lexeme) : Read Expr :=
  match fuel with
  | 0 => none
  | fuel + 1 =>
    match primary? fuel ls with
    | some (x, rest) => suffixes? fuel (.unary op x) rest
    | none => none

/-- The calls and subscripts behind `x`. -/
def suffixes? (fuel : Nat) (x : Expr) (ls : List Lexeme) : Read Expr :=
  match fuel with
  | 0 => none
  | fuel + 1 =>
    match ls with
    | .mark .openBracket :: rest =>
      match bare? fuel rest with
      | some (i, .mark .closeBracket :: rest) => suffixes? fuel (.index x i) rest
      | _ => none
    | .mark .openParen :: rest =>
      match arguments? fuel [] [] rest with
      | some ((args, named), rest) => suffixes? fuel (.call x args named) rest
      | none => none
    | ls => some (x, ls)

/-- The formulas up to a closing bracket, behind those in `seen` (the latest first), and whether a
comma follows the last one. -/
def items? (fuel : Nat) (close : Mark) (seen : List Expr) (ls : List Lexeme) :
    Read (List Expr × Bool) :=
  match fuel with
  | 0 => none
  | fuel + 1 =>
    if ls.head? = some (.mark close) then some ((seen.reverse, !seen.isEmpty), ls.drop 1)
    else match test? fuel ls with
      | some (x, .mark .comma :: rest) => items? fuel close (x :: seen) rest
      | some (x, l :: rest) =>
        if l = .mark close then some (((x :: seen).reverse, false), rest) else none
      | _ => none

/-- The arguments of a call up to the closing parenthesis, behind those read so far (the latest
first).  Arguments by name come last, and no name comes twice. -/
def arguments? (fuel : Nat) (args : List Expr) (named : List (Bytes × Expr)) (ls : List Lexeme) :
    Read (List Expr × List (Bytes × Expr)) :=
  match fuel with
  | 0 => none
  | fuel + 1 =>
    match ls with
    | .mark .closeParen :: rest => callEnd? args named rest
    | .name n :: .mark .assign :: rest =>
      match test? fuel rest with
      | some (x, rest) =>
        if named.any (·.1 == n) then none
        else more? fuel args ((n, x) :: named) rest
      | none => none
    | ls =>
      match test? fuel ls with
      | some (x, rest) => if named.isEmpty then more? fuel (x :: args) named rest else none
      | none => none

/-- What follows an argument: the end of the call, or a comma and further arguments. -/
def more? (fuel : Nat) (args : List Expr) (named : List (Bytes × Expr)) (ls : List Lexeme) :
    Read (List Expr × List (Bytes × Expr)) :=
  match fuel with
  | 0 => none
  | fuel + 1 =>
    match ls with
    | .mark .comma :: rest => arguments? fuel args named rest
    | .mark .closeParen :: rest => callEnd? args named rest
    | _ => none

/-- A formula or a bare tuple, which has no comma at its end. -/
def bare? (fuel : Nat) (ls : List Lexeme) : Read Expr :=
  match fuel with
  | 0 => none
  | fuel + 1 =>
    match test? fuel ls with
    | some (x, .mark .comma :: rest) => tail? fuel [x] rest
    | r => r

/-- The further items of a bare tuple. -/
def tail? (fuel : Nat) (seen : List Expr) (ls : List Lexeme) : Read Expr :=
  match fuel with
  | 0 => none
  | fuel + 1 =>
    match test? fuel ls with
    | some (x, .mark .comma :: rest) => tail? fuel (x :: seen) rest
    | some (x, rest) => some (.tuple (x :: seen).reverse, rest)
    | none => none

end

/-- Fuel for reading the given number of lexemes. -/
def fuelFor (n : Nat) : Nat := 32 * (n + 1)

/-- **The formula that the lexemes spell.**  One line end may follow it. -/
def parse? (ls : List Lexeme) : Option Expr :=
  match bare? (fuelFor ls.length) ls with
  | some (x, []) => some x
  | some (x, [.newline]) => some x
  | _ => none

/-- The bytes of a literal of bytes, or of a sum of such literals. -/
def Expr.bytesLiteral? : Expr → Option Bytes
  | .bytes bs => some bs
  | .binary .add x (.bytes bs) => x.bytesLiteral?.map (· ++ bs)
  | _ => none

/-! ### Names -/

mutual

/-- The names that occur in a formula. -/
def Expr.names : Expr → List Bytes
  | .int _ | .decimal _ | .string _ | .bytes _ => []
  | .name n => [n]
  | .unary _ x => x.names
  | .binary _ x y => x.names ++ y.names
  | .cond c x y => c.names ++ x.names ++ y.names
  | .tuple items => namesOfAll items
  | .list items => namesOfAll items
  | .index x i => x.names ++ i.names
  | .call f args named => f.names ++ namesOfAll args ++ namesOfNamed named

/-- The names that occur in some formula of a list. -/
def namesOfAll : List Expr → List Bytes
  | [] => []
  | x :: rest => x.names ++ namesOfAll rest

/-- The names that occur in some argument given by name. -/
def namesOfNamed : List (Bytes × Expr) → List Bytes
  | [] => []
  | (_, x) :: rest => x.names ++ namesOfNamed rest

end

end BootSector.Formula
