/-!
# Stacks

The last value pushed is the first one popped.  Folding arithmetic keeps its pending operators and
its operands on stacks.
-/

namespace BootSector

/-- A stack, held as the list of its values from the top down. -/
structure Stack (α : Type) where
  /-- The values, the top one first. -/
  items : List α := []
  deriving DecidableEq, Repr

namespace Stack

variable {α : Type}

/-- A stack without values. -/
def empty : Stack α := ⟨[]⟩

/-- The stack with `a` on top. -/
def push (s : Stack α) (a : α) : Stack α := ⟨a :: s.items⟩

/-- The top value, if there is one. -/
def peek? (s : Stack α) : Option α := s.items.head?

/-- The top value and the stack below it, if there is one. -/
def pop? (s : Stack α) : Option (α × Stack α) :=
  match s.items with
  | [] => none
  | a :: rest => some (a, ⟨rest⟩)

/-- The number of values. -/
def size (s : Stack α) : Nat := s.items.length

/-- Is there no value? -/
def isEmpty (s : Stack α) : Bool := s.items.isEmpty

/-- The values from the bottom up. -/
def toList (s : Stack α) : List α := s.items.reverse

@[simp] theorem toList_empty : (empty : Stack α).toList = [] := rfl

@[simp] theorem toList_push (s : Stack α) (a : α) : (s.push a).toList = s.toList ++ [a] := by
  simp [push, toList]

@[simp] theorem pop?_push (s : Stack α) (a : α) : (s.push a).pop? = some (a, s) := rfl

@[simp] theorem peek?_push (s : Stack α) (a : α) : (s.push a).peek? = some a := rfl

@[simp] theorem size_push (s : Stack α) (a : α) : (s.push a).size = s.size + 1 := rfl

end Stack

end BootSector
