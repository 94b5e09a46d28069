import BootSector.Instruction
import BootSector.Token

/-!
# Statements

A statement is a list of tokens that starts with a literal, a directive or a mnemonic and has
exactly the operands that this start asks for.
-/

namespace BootSector.Instruction

/-! ### Operands -/

/-- The value of a number from 0 to 65535. -/
def count (t : Token) : Except Fault UInt16 :=
  if t.kind ≠ .number then .error .invalidParameter
  else if t.value < 0 then .error .negativeNumber
  else if 65535 < t.value then .error .invalidParameter
  else .ok t.value.toUInt32.toUInt16

/-- The low byte of a literal's value. -/
def lowByte (t : Token) : UInt8 := t.value.toUInt32.toUInt8

/-- The instruction, if no token is left over. -/
def atEnd (rest : List Token) (i : Instruction) : Except Fault Instruction :=
  if rest.isEmpty then .ok i else .error .invalidParameter

/-- The instruction of an `org` with the given operands. -/
def ofOrg : List Token → Except Fault Instruction
  | n :: rest =>
    match count n with
    | .ok addr => atEnd rest (.origin addr)
    | .error e => .error e
  | [] => .error .invalidParameter

/-- The instruction of an `offset` with the given operands. -/
def ofOffset : List Token → Except Fault Instruction
  | name :: amount :: rest =>
    if name.kind = .reference ∧ amount.kind = .number then
      atEnd rest (.offset name.text amount.value)
    else .error .invalidParameter
  | _ => .error .invalidParameter

/-- The instruction of an `int` with the given operands. -/
def ofInt : List Token → Except Fault Instruction
  | vector :: rest =>
    if vector.kind = .byte then atEnd rest (.interrupt (lowByte vector))
    else .error .invalidParameter
  | [] => .error .invalidParameter

/-- The instruction of a `mov` with the given operands. -/
def ofMov : List Token → Except Fault Instruction
  | [dst, src] =>
    match dst.register? with
    | none => .error .invalidParameter
    | some r =>
      match dst.kind, src.kind with
      | .register8, .byte => .ok (.moveByte r (lowByte src))
      | .register16, .reference => .ok (.moveAddress r src.text)
      | .register16, .number =>
        if src.value < -32768 ∨ 65535 < src.value then .error .invalidParameter
        else .ok (.moveWord r src.value.toUInt32.toUInt16)
      | _, _ => .error .invalidParameter
  | _ => .error .invalidParameter

/-- The instruction of an `or` with the given operands. -/
def ofOr : List Token → Except Fault Instruction
  | reg :: rm :: rest =>
    if reg.kind = .register8 ∧ rm.kind = .register8 then
      atEnd rest (.orBytes (reg.register?.getD 0) (rm.register?.getD 0))
    else .error .invalidParameter
  | _ => .error .invalidParameter

/-- Where a jump goes that names a reference; the empty name stands for address zero. -/
def referenceTarget (name : Bytes) : JumpTarget :=
  if name.isEmpty then .address 0 else .label name

/-- The instruction of a jump with the given operands. -/
def ofJump (opcode : UInt8) (position : UInt16) : List Token → Except Fault Instruction
  | [target] =>
    match target.kind with
    | .reference => .ok (.jump opcode position (referenceTarget target.text))
    | .number =>
      if target.value < 0 ∨ 65535 < target.value then .error .invalidParameter
      else .ok (.jump opcode position (.address target.value.toUInt32.toUInt16))
    | _ => .error .invalidParameter
  | _ => .error .invalidParameter

/-- Is this the start of a new segment? -/
def isOrigin : Instruction → Bool
  | .origin _ => true
  | _ => false

/-- The instruction of a `times`, if its body may be repeated and fits 64K. -/
def repeated (count : UInt16) (body : Instruction) : Except Fault Instruction :=
  if body.isOrigin then .error .invalidParameter
  else if 65535 < body.length.toNat * count.toNat then .error .tooLarge
  else .ok (.times count body)

/-! ### Statements -/

/-- **The instruction of a statement.** -/
def ofTokens : List Token → Except Fault Instruction
  | [] => .error .unsupportedStart
  | t :: args =>
    match t.kind with
    | .byte => atEnd args (.byte (lowByte t))
    | .string =>
      if 65535 < t.text.length then .error .tooLarge else atEnd args (.text t.text)
    | .times =>
      match args with
      | [] => .error .invalidParameter
      | n :: body =>
        match count n with
        | .error e => .error e
        | .ok count =>
          if body.isEmpty then .error .invalidParameter
          else match ofTokens body with
            | .error e => .error e
            | .ok i => repeated count i
    | .org => ofOrg args
    | .offset => ofOffset args
    | .int => ofInt args
    | .hlt => atEnd args (.simple Opcode.hlt)
    | .cli => atEnd args (.simple Opcode.cli)
    | .lodsb => atEnd args (.simple Opcode.lodsb)
    | .mov => ofMov args
    | .or => ofOr args
    | .jz => ofJump Opcode.jz t.position args
    | .jmp => ofJump Opcode.jmp t.position args
    | _ => .error .unsupportedStart

end BootSector.Instruction
