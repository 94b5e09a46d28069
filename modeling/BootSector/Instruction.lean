import BootSector.LabelTable

/-!
# Instructions and their encoding

The instruction set is closed: literals, the directives that emit or move, and the instructions of a
small subset of the 16-bit processor.  The size of an instruction never depends on addresses, so it
is known before any label is; the bytes do, and are produced against a label table.
-/

namespace BootSector

/-- Where a jump goes. -/
inductive JumpTarget where
  /-- To the address of a label. -/
  | label (name : Bytes)
  /-- To a given address. -/
  | address (addr : UInt16)
  deriving DecidableEq, Repr

/-- The address that a jump goes to. -/
def JumpTarget.resolve (labels : LabelTable) : JumpTarget → Except Fault UInt16
  | label name => labels.resolve name
  | address addr => .ok addr

/-- **An instruction.**  Register operands are indices in their class. -/
inductive Instruction where
  /-- One byte. -/
  | byte (value : UInt8)
  /-- The bytes of a text. -/
  | text (bytes : Bytes)
  /-- An instruction, a number of times. -/
  | times (count : UInt16) (body : Instruction)
  /-- Start a new segment at an address; emits nothing. -/
  | origin (address : UInt16)
  /-- The address of a label plus an amount, as a word. -/
  | offset (label : Bytes) (amount : Int32)
  /-- Load a byte register with a byte. -/
  | moveByte (register value : UInt8)
  /-- Load a word register with the address of a label. -/
  | moveAddress (register : UInt8) (label : Bytes)
  /-- Load a word register with a word. -/
  | moveWord (register : UInt8) (value : UInt16)
  /-- Inclusive or of two byte registers, the first in the `reg` field and the second in `rm`. -/
  | orBytes (reg rm : UInt8)
  /-- A short jump that stands at `position`. -/
  | jump (opcode : UInt8) (position : UInt16) (target : JumpTarget)
  /-- An instruction that is only its opcode. -/
  | simple (opcode : UInt8)
  /-- A software interrupt. -/
  | interrupt (vector : UInt8)
  /-- No instruction at all; it has no encoding. -/
  | absent
  deriving DecidableEq, Repr

namespace Opcode

/-- `or r/m8, r8` -/
def orBytes : UInt8 := 0x08
/-- `jz rel8` -/
def jz : UInt8 := 0x74
/-- `lodsb` -/
def lodsb : UInt8 := 0xAC
/-- `mov r8, imm8`, plus the register -/
def moveByte : UInt8 := 0xB0
/-- `mov r16, imm16`, plus the register -/
def moveWord : UInt8 := 0xB8
/-- `int imm8` -/
def interrupt : UInt8 := 0xCD
/-- `jmp rel8` -/
def jmp : UInt8 := 0xEB
/-- `hlt` -/
def hlt : UInt8 := 0xF4
/-- `cli` -/
def cli : UInt8 := 0xFA
/-- The operand byte of two registers, without their indices. -/
def registerDirect : UInt8 := 0xC0

end Opcode

namespace Instruction

/-! ### Size -/

/-- The size of a short jump. -/
def jumpLength : UInt16 := 2

/-- **The encoded size of an instruction**, as a 16-bit word that wraps around. -/
def length : Instruction → UInt16
  | byte _ | simple _ => 1
  | text bytes => UInt16.ofNat bytes.length
  | times count body => body.length * count
  | origin _ => 0
  | offset .. | moveByte .. | orBytes .. | interrupt _ => 2
  | jump .. => jumpLength
  | moveAddress .. | moveWord .. => 3
  | absent => 0

/-! ### Jumps -/

/-- The signed distance from behind a jump at `position` to `target`. -/
def distance (position target : UInt16) : Int16 := (target - (position + jumpLength)).toInt16

/-- Does a signed byte hold the distance of a jump? -/
def inRange (position target : UInt16) : Bool :=
  -128 ≤ distance position target && distance position target ≤ 127

/-- The displacement byte of a jump; a distance that is out of range is cut to its low byte. -/
def displacement (position target : UInt16) : UInt8 := (target - (position + jumpLength)).toUInt8

/-! ### Encoding -/

/-- **The bytes of an instruction**, with its references resolved.  In strict mode a jump that is
out of range is a fault. -/
def encode (strict : Bool) (labels : LabelTable) : Instruction → Except Fault Bytes
  | byte value => .ok [value]
  | text bytes => .ok bytes
  | times count body =>
    match encode strict labels body with
    | .ok once => .ok (List.replicate count.toNat once).flatten
    | .error e => .error e
  | origin _ => .ok []
  | offset label amount =>
    match labels.resolve label with
    | .ok addr => .ok (Bytes.littleEndian (addr + amount.toUInt32.toUInt16))
    | .error e => .error e
  | moveByte register value => .ok [Opcode.moveByte + register, value]
  | moveAddress register label =>
    match labels.resolve label with
    | .ok addr => .ok ((Opcode.moveWord + register) :: Bytes.littleEndian addr)
    | .error e => .error e
  | moveWord register value => .ok ((Opcode.moveWord + register) :: Bytes.littleEndian value)
  | orBytes reg rm => .ok [Opcode.orBytes, Opcode.registerDirect ||| (reg <<< 3) ||| rm]
  | jump opcode position target =>
    match target.resolve labels with
    | .ok addr =>
      if strict && !inRange position addr then .error .displacementOutOfRange
      else .ok [opcode, displacement position addr]
    | .error e => .error e
  | simple opcode => .ok [opcode]
  | interrupt vector => .ok [Opcode.interrupt, vector]
  | absent => .error .invalidInstruction

end Instruction

end BootSector
