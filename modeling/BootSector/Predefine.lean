import BootSector.Formula.Eval
import BootSector.Program

/-!
# Predefinitions

A name can be given an address before the first source line, by a formula.  Formulas are evaluated
in order, each in an environment that has the origin and the names before it.  What a formula means
is up to the evaluator.
-/

namespace BootSector

/-- **A predefinition.** -/
structure Predefine where
  /-- The name. -/
  name : Bytes
  /-- The formula of its address. -/
  formula : Bytes
  deriving DecidableEq, Repr

namespace Predefine

/-- Where the firmware loads a boot sector. -/
def bootOrigin : Int := 0x7C00

/-- The environment of the first formula. -/
def baseEnv (origin : UInt16) : Formula.Env :=
  [(Bytes.ofString "ORIGIN", (origin.toNat : Int)), (Bytes.ofString "BOOT_ORIGIN", bootOrigin)]

/-- A list of predefinitions with one more.  A name that is already defined keeps its place and gets
the new formula. -/
def insert : List Predefine → Predefine → List Predefine
  | [], d => [d]
  | e :: rest, d => if e.name = d.name then d :: rest else e :: insert rest d

/-- The address that a formula gives. -/
def address (evaluate : Formula.Evaluator) (env : Formula.Env) (formula : Bytes) :
    Except Fault UInt16 :=
  match evaluate env formula with
  | none => .error (.notFormula formula)
  | some n =>
    if n < -0x8000000000000000 ∨ 0x8000000000000000 ≤ n then .error (.notFormula formula)
    else if n < 0 ∨ 65535 < n then .error .predefineRange
    else .ok (UInt16.ofNat n.toNat)

/-- Binds predefinitions in order, each in the environment that the ones before it make. -/
def bindFrom (evaluate : Formula.Evaluator) (env : Formula.Env) (labels : LabelTable) :
    List Predefine → Except AssemblyError LabelTable
  | [] => .ok labels
  | d :: rest =>
    match address evaluate env d.formula with
    | .error fault => .error (.inPredefine d.name fault)
    | .ok addr =>
      bindFrom evaluate ((d.name, (addr.toNat : Int)) :: env) (labels.bind d.name addr) rest

/-- **The label table before the first source line.** -/
def table (evaluate : Formula.Evaluator) (origin : UInt16) (defs : List Predefine) :
    Except AssemblyError LabelTable :=
  bindFrom evaluate (baseEnv origin) LabelTable.empty defs

end Predefine

end BootSector
