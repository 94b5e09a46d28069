import BootSector.Event
import BootSector.Instruction.Parse
import BootSector.Predefine
import BootSector.Reading
import BootSector.Token.Arithmetic

/-!
# The assembler

The first sweep reads the source line by line.  A line may define a label, which gets the current
address, and may hold a statement, which takes the addresses from there on.  `org` starts a new
segment at another address.  All code of a segment lies below address 2¹⁶; it may end exactly there,
and then nothing that needs an address can follow.
-/

namespace BootSector

/-- **An assembler**: the settings for a run over a source. -/
structure Assembler where
  /-- Is every source line reported? -/
  verbose : Bool := false
  /-- The address of the first statement, and the start of its segment. -/
  origin : UInt16 := 0
  /-- Is a jump that is out of range a fault? -/
  strict : Bool := false
  /-- The names that are defined before the first line. -/
  predefines : List Predefine := []
  /-- The evaluator of their formulas. -/
  evaluate : Formula.Evaluator := Formula.evaluate?

/-! ### The state of the first sweep -/

/-- **The state of the first sweep** between two lines. -/
structure Sweep where
  /-- The location counters. -/
  location : Location
  /-- The end of the segment's code.  It is 2¹⁶ where the location counter has wrapped around. -/
  reach : Nat
  /-- The names bound so far. -/
  labels : LabelTable
  /-- The statements so far. -/
  statements : Array Statement := #[]
  /-- What was reported so far. -/
  events : Array Event := #[]

namespace Sweep

/-- The size of the address space. -/
def addressSpace : Nat := 65536

/-- The state before the first line. -/
def start (origin : UInt16) (labels : LabelTable) : Sweep where
  location := ⟨origin, origin⟩
  reach := origin.toNat
  labels := labels

/-- The state with one more event. -/
def report (s : Sweep) (e : Event) : Sweep := { s with events := s.events.push e }

/-- The state after a label definition: the name gets the current address, and a name that had one
is reported. -/
def define (s : Sweep) (number : Nat) (name : Bytes) : Sweep :=
  let s' :=
    match s.labels.find? name with
    | some old => s.report (.labelRedefined name number old s.location.current)
    | none => s
  { s' with labels := s.labels.bind name s.location.current }

/-- The state after a statement, and the fault if it does not fit. -/
def place (s : Sweep) (number : Nat) (line : Bytes) (i : Instruction) : Sweep × Option Fault :=
  match i with
  | .origin addr => ({ s with location := ⟨addr, addr⟩, reach := addr.toNat }, none)
  | i =>
    let reach := s.reach + i.length.toNat
    if addressSpace < reach then (s, some .tooLarge)
    else
      ({ s with
          location := { s.location with current := s.location.current + i.length }
          reach := reach
          statements := s.statements.push ⟨number, line, s.location.current, i⟩ }, none)

/-- The state after the tokens behind a label definition. -/
def statement (s : Sweep) (number : Nat) (line : Bytes) (tokens : List Token) :
    Sweep × Option Fault :=
  if tokens.isEmpty then (s, none)
  else match Instruction.ofTokens tokens with
    | .error fault => (s, some fault)
    | .ok i => s.place number line i

/-- The state after the tokens of a line. -/
def tokens (s : Sweep) (number : Nat) (line : Bytes) (tokens : List Token) : Sweep × Option Fault :=
  match tokens with
  | [] => (s, none)
  | t :: rest =>
    if t.kind = .label then
      if addressSpace ≤ s.reach then (s, some .tooLarge)
      else (s.define number t.text).statement number line rest
    else s.statement number line (t :: rest)

/-- **The state after a line**, and the fault if the line has one. -/
def step (verbose : Bool) (s : Sweep) (number : Nat) (line : Bytes) : Sweep × Option Fault :=
  let s := if verbose then s.report (.sourceLine number s.location.current line) else s
  match Token.ofLine s.location line with
  | .error fault => (s, some fault)
  | .ok tokens => s.tokens number line tokens

/-- The state after some lines, the first of which has the given number, up to the first fault. -/
def run (verbose : Bool) (s : Sweep) (number : Nat) : List Bytes → Sweep × Option AssemblyError
  | [] => (s, none)
  | line :: rest =>
    match s.step verbose number line with
    | (s, none) => run verbose s (number + 1) rest
    | (s, some fault) => (s, some (.onLine number line fault))

end Sweep

/-! ### Sources -/

namespace Assembler

/-- **What the first sweep gives**: what it reports, and a program or an error. -/
structure Parsed where
  /-- The events, in order. -/
  events : List Event
  /-- The program, if there is one. -/
  result : Except AssemblyError Program

/-- The assembler with one more predefinition. -/
def predefine (a : Assembler) (name formula : Bytes) : Assembler :=
  { a with predefines := Predefine.insert a.predefines ⟨name, formula⟩ }

/-- The error of a reading that ended early: it stands on the last line that was read. -/
def readingError (lines : List Bytes) (fault : Fault) : AssemblyError :=
  .onLine lines.length (lines.getLast?.getD []) fault

/-- **The first sweep** over what was read of a source. -/
def sweep (a : Assembler) (r : Reading) : Parsed :=
  match Predefine.table a.evaluate a.origin a.predefines with
  | .error e => { events := [], result := .error e }
  | .ok labels =>
    let (s, error?) := (Sweep.start a.origin labels).run a.verbose 1 r.lines
    { events := s.events.toList
      result :=
        match error?, r.fault with
        | some e, _ => .error e
        | none, some fault => .error (readingError r.lines fault)
        | none, none => .ok ⟨s.statements.toList, s.labels, a.strict⟩ }

/-- The program of a source. -/
def parse (a : Assembler) (source : Bytes) : Except AssemblyError Program :=
  (a.sweep (.ofBytes source)).result

/-- **The machine code of a source.** -/
def assemble (a : Assembler) (source : Bytes) : Except AssemblyError Bytes :=
  match a.parse source with
  | .ok p => p.encode
  | .error e => .error e

end Assembler

end BootSector
