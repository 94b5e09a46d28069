import BootSector.Instruction
import BootSector.Sequence

/-!
# Programs

The first sweep over a source turns it into a program: the statements in source order, each with the
address at which it stands, and the finished label table.  The second sweep encodes the statements.
-/

namespace BootSector

/-- **Why a source cannot be assembled**, with the place of the fault. -/
inductive AssemblyError where
  /-- A fault on a source line. -/
  | onLine (number : Nat) (line : Bytes) (fault : Fault)
  /-- A fault in a predefinition. -/
  | inPredefine (name : Bytes) (fault : Fault)
  deriving DecidableEq, Repr

/-- The wording of an error. -/
def AssemblyError.message : AssemblyError → Bytes
  | onLine number line fault =>
    Text.Template.fill "line %d '%v' %v" [.number number, .text line, .text fault.message]
  | inPredefine name fault =>
    Text.Template.fill "predefine %v %v" [.text name, .text fault.message]

/-- **A statement**: an instruction with its address and the line it comes from. -/
structure Statement where
  /-- The number of the line, counted from one. -/
  lineNo : Nat
  /-- The line. -/
  line : Bytes
  /-- The address of the instruction. -/
  address : UInt16
  /-- The instruction. -/
  instruction : Instruction
  deriving DecidableEq, Repr

/-- The encoded size of a statement. -/
def Statement.length (st : Statement) : UInt16 := st.instruction.length

/-- Does the statement cover the address? -/
def Statement.covers (st : Statement) (addr : UInt16) : Bool :=
  st.address ≤ addr && addr.toNat < st.address.toNat + st.length.toNat

/-- **A program**, ready to be encoded. -/
structure Program where
  /-- The statements, in source order. -/
  statements : List Statement
  /-- The addresses of all names. -/
  labels : LabelTable
  /-- Is a jump that is out of range a fault? -/
  strict : Bool

namespace Program

/-- The bytes of a statement. -/
def encodeStatement (p : Program) (st : Statement) : Except AssemblyError Bytes :=
  match st.instruction.encode p.strict p.labels with
  | .ok code => .ok code
  | .error fault => .error (.onLine st.lineNo st.line fault)

/-- The bytes of some statements behind those of the statements before, which are given one by one,
the latest first. -/
def encodeOnto (p : Program) (done : List Bytes) : List Statement → Except AssemblyError Bytes
  | [] => .ok done.reverse.flatten
  | st :: rest =>
    match p.encodeStatement st with
    | .ok code => p.encodeOnto (code :: done) rest
    | .error e => .error e

/-- **The machine code of a program**: the bytes of its statements, one after another. -/
def encode (p : Program) : Except AssemblyError Bytes := p.encodeOnto [] p.statements

/-- The first statement that covers an address, and the place of the address in it. -/
def locate (p : Program) (addr : UInt16) : Option (Statement × Nat) :=
  (p.statements.find? (·.covers addr)).map fun st => (st, (addr - st.address).toNat)

/-- The names with their addresses, by address and then by name. -/
def symbols (p : Program) : List (Bytes × UInt16) := p.labels.symbols

/-- The names with their addresses, for a consumer that may not want all of them. -/
def symbolSequence (p : Program) : Sequence (Bytes × UInt16) := .ofList p.symbols

end Program

end BootSector
