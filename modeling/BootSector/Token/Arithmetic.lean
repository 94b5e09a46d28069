import BootSector.Stack
import BootSector.Token.Scan

/-!
# Folding arithmetic

The first parenthesised group of a token list is replaced by its value.  The group is found by
counting parentheses, brought into reverse Polish order (operators bind to the left, `*` tighter
than `+` and `-`), and evaluated in signed 32-bit arithmetic, which wraps around.
-/

namespace BootSector.Token

/-! ### The first group -/

/-- A token list cut around its first parenthesised group. -/
structure Grouped where
  /-- What stands before the group. -/
  before : List Token
  /-- The group with its parentheses. -/
  group : List Token
  /-- What stands after the group. -/
  after : List Token
  deriving DecidableEq, Repr

/-- Cuts a list behind the parenthesis that closes the given depth; `seen` holds what was passed,
the latest first.  Only operands, operators and parentheses may be passed. -/
def closeGroup (seen : List Token) (depth : Nat) :
    List Token → Except Fault (List Token × List Token)
  | [] => .error .mismatchedParen
  | t :: rest =>
    if t.kind = .openParen then closeGroup (t :: seen) (depth + 1) rest
    else if t.kind = .closeParen then
      if depth = 1 then .ok ((t :: seen).reverse, rest)
      else closeGroup (t :: seen) (depth - 1) rest
    else if t.isValue || t.isOperator then closeGroup (t :: seen) depth rest
    else .error .invalidArithmetic

/-- The first group of a list; none if the list has no opening parenthesis. -/
def firstGroup (tokens : List Token) : Except Fault (Option Grouped) :=
  let before := tokens.takeWhile (·.kind ≠ .openParen)
  match tokens.drop before.length with
  | [] => .ok none
  | t :: rest =>
    match closeGroup [t] 1 rest with
    | .error e => .error e
    | .ok (group, after) => .ok (some { before, group, after })

/-! ### Reverse Polish order -/

/-- How tightly an operator binds. -/
def precedence (t : Token) : Nat := if t.kind = .multiply then 1 else 0

/-- Moves operators that bind at least as tightly as `t` from the stack to the output. -/
def yieldTo (t : Token) (output : List Token) : List Token → List Token × List Token
  | [] => (output, [])
  | top :: rest =>
    if top.isOperator && precedence t ≤ precedence top then yieldTo t (top :: output) rest
    else (output, top :: rest)

/-- Moves operators from the stack to the output up to an opening parenthesis, which is dropped. -/
def yieldGroup (output : List Token) : List Token → Except Fault (List Token × List Token)
  | [] => .error .mismatchedParen
  | top :: rest =>
    if top.kind = .openParen then .ok (output, rest) else yieldGroup (top :: output) rest

/-- Moves all operators from the stack to the output. -/
def yieldAll (output : List Token) : List Token → Except Fault (List Token)
  | [] => .ok output.reverse
  | top :: rest =>
    if top.isOperator then yieldAll (top :: output) rest else .error .mismatchedParen

/-- Reverse Polish order of a group, behind the output so far (the latest first), with the pending
operators and parentheses on a stack. -/
def polishOnto (output : List Token) (pending : Stack Token) :
    List Token → Except Fault (List Token)
  | [] => yieldAll output pending.items
  | t :: rest =>
    if t.isValue then polishOnto (number t.value :: output) pending rest
    else if t.isOperator then
      let (output, operators) := yieldTo t output pending.items
      polishOnto output ⟨t :: operators⟩ rest
    else if t.kind = .openParen then polishOnto output (pending.push t) rest
    else if t.kind = .closeParen then
      match yieldGroup output pending.items with
      | .error e => .error e
      | .ok (output, operators) => polishOnto output ⟨operators⟩ rest
    else .error .invalidArithmetic

/-- The operands and operators of a group in reverse Polish order. -/
def reversePolish (group : List Token) : Except Fault (List Token) :=
  polishOnto [] Stack.empty group

/-! ### Evaluation -/

/-- The result of an operator on signed 32-bit operands. -/
def applied? (kind : TokenKind) (left right : Int32) : Option Int32 :=
  match kind with
  | .plus => some (left + right)
  | .minus => some (left - right)
  | .multiply => some (left * right)
  | _ => none

/-- The operands left on the stack after a list in reverse Polish order. -/
def evaluateOnto (operands : Stack Int32) : List Token → Except Fault (Stack Int32)
  | [] => .ok operands
  | t :: rest =>
    if t.isValue then evaluateOnto (operands.push t.value) rest
    else match operands.items with
      | right :: left :: below =>
        match applied? t.kind left right with
        | some v => evaluateOnto ⟨v :: below⟩ rest
        | none => .error .invalidArithmetic
      | _ => .error .invalidArithmetic

/-- The value of a list in reverse Polish order. -/
def evaluate (polish : List Token) : Except Fault Int32 :=
  match evaluateOnto Stack.empty polish with
  | .error e => .error e
  | .ok operands =>
    match operands.items with
    | [v] => .ok v
    | _ => .error .invalidArithmetic

/-! ### Folding -/

/-- **Replaces the first parenthesised group by its value.**  Later groups stay as they are. -/
def fold (tokens : List Token) : Except Fault (List Token) :=
  match firstGroup tokens with
  | .error e => .error e
  | .ok none => .ok tokens
  | .ok (some g) =>
    match reversePolish g.group with
    | .error e => .error e
    | .ok polish =>
      match evaluate polish with
      | .error e => .error e
      | .ok v => .ok (g.before ++ number v :: g.after)

/-- **The tokens of a source line**, with its first parenthesised group folded. -/
def ofLine (loc : Location) (line : Bytes) : Except Fault (List Token) :=
  match scan loc (Text.Utf8.decode line) with
  | .error e => .error e
  | .ok tokens => fold tokens

end BootSector.Token
