import BootSector.Proofs.References

/-!
# Decoding the machine code

`Operation.decode` reads machine code the way the processor does: the first byte tells which
operation it is and how many bytes belong to it.  It knows nothing of lines and statements.

`Performs` says, for the tokens of a statement, which operations they stand for.  What a statement
encodes to decodes to these operations, whatever stands behind it (`exists_decodes_of_reads`), so
the code of a program decodes to the operations of its statements, one after another.  Here it
matters that registers have indices below eight: the index is added to an opcode or put in a field
of three bits, and nothing checks that it fits.
-/

namespace BootSector

/-- **An operation of the processor.**  Registers are given by their indices. -/
inductive Operation where
  | hlt
  | cli
  | lodsb
  | interrupt (vector : UInt8)
  | jz (displacement : UInt8)
  | jmp (displacement : UInt8)
  /-- Inclusive or of two byte registers, named by the fields `reg` and `r/m`. -/
  | orBytes (reg rm : UInt8)
  | moveByte (register value : UInt8)
  | moveWord (register : UInt8) (value : UInt16)
  deriving DecidableEq, Repr

namespace Operation

/-! ### The decoder -/

/-- A word from its two bytes, the low byte first. -/
def word (low high : UInt8) : UInt16 := low.toUInt16 + 256 * high.toUInt16

/-- The operation that is only its opcode. -/
def bare? (opcode : UInt8) : Option Operation :=
  if opcode = 0xF4 then some hlt
  else if opcode = 0xFA then some cli
  else if opcode = 0xAC then some lodsb
  else none

/-- The operation of an opcode with a byte behind it. -/
def withByte? (opcode x : UInt8) : Option Operation :=
  if opcode = 0xCD then some (interrupt x)
  else if opcode = 0x74 then some (jz x)
  else if opcode = 0xEB then some (jmp x)
  else if opcode = 0x08 then
    -- the upper two bits are set when both operands are registers
    if x >>> 6 = 3 then some (orBytes ((x >>> 3) &&& 7) (x &&& 7)) else none
  else if opcode &&& 0xF8 = 0xB0 then some (moveByte (opcode &&& 7) x)
  else none

/-- The operation of an opcode with a word behind it. -/
def withWord? (opcode : UInt8) (w : UInt16) : Option Operation :=
  if opcode &&& 0xF8 = 0xB8 then some (moveWord (opcode &&& 7) w) else none

/-- **The operations of some machine code**, if it is made of operations up to its end. -/
def decode : Bytes → Option (List Operation)
  | [] => some []
  | opcode :: rest =>
    match bare? opcode with
    | some op => (decode rest).map (op :: ·)
    | none =>
      match rest with
      | [] => none
      | x :: rest =>
        match withByte? opcode x with
        | some op => (decode rest).map (op :: ·)
        | none =>
          match rest with
          | [] => none
          | y :: rest =>
            match withWord? opcode (word x y) with
            | some op => (decode rest).map (op :: ·)
            | none => none

variable {opcode x y : UInt8} {op : Operation} {rest : Bytes}

theorem decode_bare (h : bare? opcode = some op) :
    decode (opcode :: rest) = (decode rest).map (op :: ·) := by
  rw [decode.eq_def]
  simp only [h]

theorem decode_withByte (hbare : bare? opcode = none) (h : withByte? opcode x = some op) :
    decode (opcode :: x :: rest) = (decode rest).map (op :: ·) := by
  rw [decode.eq_def]
  simp only [hbare, h]

theorem decode_withWord (hbare : bare? opcode = none) (hbyte : withByte? opcode x = none)
    (h : withWord? opcode (word x y) = some op) :
    decode (opcode :: x :: y :: rest) = (decode rest).map (op :: ·) := by
  rw [decode.eq_def]
  simp only [hbare, hbyte, h]

example : decode [0xB4, 0x0E, 0xBE, 0x10, 0x7C, 0x08, 0xC8, 0xEB, 0xFE] =
    some [moveByte 4 0x0E, moveWord 6 0x7C10, orBytes 1 0, jmp 0xFE] := by decide

theorem word_littleEndian (w : UInt16) : word w.toUInt8 (w >>> 8).toUInt8 = w := by
  have hw : w.toNat < 65536 := w.toNat_lt
  apply UInt16.toNat_inj.mp
  simp only [word, UInt16.toUInt16_toUInt8, UInt16.toNat_add, UInt16.toNat_mod, UInt16.reduceToNat,
    UInt16.toNat_mul, UInt16.toNat_shiftRight, Nat.reduceMod, Nat.shiftRight_eq_div_pow,
    Nat.reducePow]
  omega

/-- **The code decodes to the operations**, whatever stands behind it. -/
def Decodes (code : Bytes) (ops : List Operation) : Prop :=
  ∀ rest, decode (code ++ rest) = (decode rest).map (ops ++ ·)

theorem Decodes.nil : Decodes [] [] := fun rest => by simp

theorem Decodes.append {code code' : Bytes} {ops ops' : List Operation} (h : Decodes code ops)
    (h' : Decodes code' ops') : Decodes (code ++ code') (ops ++ ops') := by
  intro rest
  rw [List.append_assoc, h, h']
  simp [Function.comp_def]

theorem Decodes.replicate {code : Bytes} {ops : List Operation} (h : Decodes code ops) (n : Nat) :
    Decodes (List.replicate n code).flatten (List.replicate n ops).flatten := by
  induction n with
  | zero => exact .nil
  | succ n ih =>
    rw [List.replicate_succ, List.replicate_succ, List.flatten_cons, List.flatten_cons]
    exact h.append ih

theorem decode_eq_of_decodes {code : Bytes} {ops : List Operation} (h : Decodes code ops) :
    decode code = some ops := by
  have hnil := h []
  rw [List.append_nil] at hnil
  rw [hnil]
  simp [decode]

/-! ### Registers -/

theorem decodes_moveByte (r : Fin 8) (value : UInt8) :
    Decodes [Opcode.moveByte + UInt8.ofNat r, value] [moveByte (UInt8.ofNat r) value] := by
  intro rest
  match r with
  | 0 | 1 | 2 | 3 | 4 | 5 | 6 | 7 => exact decode_withByte rfl rfl

theorem decodes_moveWord (r : Fin 8) (value : UInt16) :
    Decodes ((Opcode.moveWord + UInt8.ofNat r) :: Bytes.littleEndian value)
      [moveWord (UInt8.ofNat r) value] := by
  intro rest
  have hword := word_littleEndian value
  match r with
  | 0 | 1 | 2 | 3 | 4 | 5 | 6 | 7 => exact decode_withWord rfl rfl (by rw [hword]; rfl)

theorem decodes_orBytes (reg rm : Fin 8) :
    Decodes [Opcode.orBytes,
        Opcode.registerDirect ||| (UInt8.ofNat reg <<< 3) ||| UInt8.ofNat rm]
      [orBytes (UInt8.ofNat reg) (UInt8.ofNat rm)] := by
  have hfields : ∀ reg rm : Fin 8, withByte? Opcode.orBytes
      (Opcode.registerDirect ||| (UInt8.ofNat reg <<< 3) ||| UInt8.ofNat rm) =
        some (orBytes (UInt8.ofNat reg) (UInt8.ofNat rm)) := by decide
  exact fun rest => decode_withByte rfl (hfields reg rm)

end Operation

namespace Token

/-- A register has an index below eight. -/
theorem exists_fin_of_register? {t : Token} {r : UInt8} (h : t.register? = some r) :
    ∃ k : Fin 8, r = UInt8.ofNat k := by
  have hindex {names : List Bytes} {name : Bytes} (hnames : names.length = 8)
      (hr : Register.indexIn? names name = some r) : ∃ k : Fin 8, r = UInt8.ofNat k := by
    obtain ⟨k, hk, rfl⟩ := Option.map_eq_some_iff.mp hr
    have hlt : k < 8 := hnames ▸ (List.findIdx?_eq_some_iff_getElem.mp hk).1
    exact ⟨⟨k, hlt⟩, rfl⟩
  unfold register? at h
  split at h
  · exact hindex rfl h
  · exact hindex rfl h
  · cases h

theorem exists_register?_of_ofLine {loc : Location} {line : Bytes} {tokens : List Token} {t : Token}
    (h : ofLine loc line = .ok tokens) (ht : t ∈ tokens) (hkind : t.kind = .register8) :
    ∃ r, t.register? = some r := by
  cases made_of_ofLine h ht with
  | string text | number v | label hname => cases hkind
  | literal hliteral =>
    have hvalue := isValue_of_ofLiteral hliteral
    rw [isValue, hkind] at hvalue
    cases hvalue
  | punctuation hpunctuation =>
    unfold punctuation? at hpunctuation
    split at hpunctuation <;> cases hpunctuation <;> cases hkind
  | @name word hname =>
    revert hkind
    dsimp only [ofName]
    split
    · rename_i kind hmnemonic
      obtain ⟨entry, hentry, rfl⟩ := Option.map_eq_some_iff.mp hmnemonic
      have hall : ∀ entry ∈ mnemonics, entry.2 ≠ .register8 := by decide
      have hne := hall entry (List.mem_of_find?_eq_some hentry)
      split_ifs <;> exact fun hkind => absurd hkind hne
    · unfold ofRegister?
      split_ifs with hbyte
      · exact fun _ => Option.isSome_iff_exists.mp hbyte
      · intro hkind
        cases hkind
      · intro hkind
        cases hkind

end Token

/-! ### Operations of a statement -/

namespace Instruction

/-- Is this an instruction of the processor, under any number of repetitions? -/
def isMachine : Instruction → Bool
  | times _ body => body.isMachine
  | moveByte .. | moveAddress .. | moveWord .. | orBytes .. | jump .. | simple _ | interrupt _ =>
    true
  | byte _ | text _ | origin _ | offset .. | absent => false

/-- The operation of a mnemonic without operands. -/
def simpleOperation? : TokenKind → Option Operation
  | .hlt => some .hlt
  | .cli => some .cli
  | .lodsb => some .lodsb
  | _ => none

/-- The operation of a jump, with its displacement. -/
def jumpOperation? (displacement : UInt8) : TokenKind → Option Operation
  | .jz => some (.jz displacement)
  | .jmp => some (.jmp displacement)
  | _ => none

/-- **The operations that a statement stands for**, when it stands at `position`: registers have the
indices of their names, a label its address in the table, and a repetition its body as often as it
says.  A jump has the distance from behind the statement to its target, modulo 2⁸. -/
inductive Performs (labels : LabelTable) (position : UInt16) :
    List Token → List Operation → Prop where
  | simple {t : Token} {op : Operation} (ht : simpleOperation? t.kind = some op) :
    Performs labels position [t] [op]
  | interrupt {t vector : Token} (ht : t.kind = .int) (hvector : vector.kind = .byte) :
    Performs labels position [t, vector] [.interrupt (lowByte vector)]
  | moveByte {t dst src : Token} {r : UInt8} (ht : t.kind = .mov) (hdst : dst.kind = .register8)
    (hr : dst.register? = some r) (hsrc : src.kind = .byte) :
    Performs labels position [t, dst, src] [.moveByte r (lowByte src)]
  | moveAddress {t dst src : Token} {r : UInt8} {addr : UInt16} (ht : t.kind = .mov)
    (hdst : dst.kind = .register16) (hr : dst.register? = some r) (hsrc : src.kind = .reference)
    (haddr : labels.find? src.text = some addr) :
    Performs labels position [t, dst, src] [.moveWord r addr]
  | moveWord {t dst src : Token} {r : UInt8} (ht : t.kind = .mov) (hdst : dst.kind = .register16)
    (hr : dst.register? = some r) (hsrc : src.kind = .number) :
    Performs labels position [t, dst, src] [.moveWord r src.value.toUInt32.toUInt16]
  | orBytes {t left right : Token} {reg rm : UInt8} (ht : t.kind = .or)
    (hleft : left.kind = .register8) (hreg : left.register? = some reg)
    (hright : right.kind = .register8) (hrm : right.register? = some rm) :
    Performs labels position [t, left, right] [.orBytes reg rm]
  | jump {t target : Token} {addr : UInt16} {d : UInt8} {op : Operation}
    (htarget : target.kind = .reference ∧ labels.find? target.text = some addr ∨
      IsWord target addr)
    (hd : (d.toNat : Int) = ((addr.toNat : Int) - (position.toNat + 2)) % 256)
    (ht : jumpOperation? d t.kind = some op) :
    Performs labels position [t, target] [op]
  | times {t n : Token} {count : UInt16} {rest : List Token} {ops : List Operation}
    (ht : t.kind = .times) (hn : IsWord n count) (hrest : Performs labels position rest ops) :
    Performs labels position (t :: n :: rest) (List.replicate count.toNat ops).flatten

variable {labels : LabelTable} {strict : Bool} {code : Bytes}

theorem exists_simpleOperation? {kind : TokenKind} {opcode : UInt8}
    (h : simpleOpcode? kind = some opcode) :
    ∃ op, simpleOperation? kind = some op ∧ Operation.Decodes [opcode] [op] := by
  unfold simpleOpcode? at h
  split at h <;> cases h
  · exact ⟨.hlt, rfl, fun rest => Operation.decode_bare rfl⟩
  · exact ⟨.cli, rfl, fun rest => Operation.decode_bare rfl⟩
  · exact ⟨.lodsb, rfl, fun rest => Operation.decode_bare rfl⟩

theorem exists_jumpOperation? {kind : TokenKind} {opcode : UInt8}
    (h : jumpOpcode? kind = some opcode) (d : UInt8) :
    ∃ op, jumpOperation? d kind = some op ∧ Operation.Decodes [opcode, d] [op] := by
  unfold jumpOpcode? at h
  split at h <;> cases h
  · exact ⟨.jz d, rfl, fun rest => Operation.decode_withByte rfl rfl⟩
  · exact ⟨.jmp d, rfl, fun rest => Operation.decode_withByte rfl rfl⟩

theorem exists_find?_of_resolve {name : Bytes} {addr : UInt16}
    (h : labels.resolve name = .ok addr) : labels.find? name = some addr := by
  unfold LabelTable.resolve at h
  split at h
  · rename_i addr' hfind
    rw [hfind, Except.ok.inj h]
  · cases h

/-- A jump decodes to a jump, whether it names its target or gives an address. -/
theorem exists_decodes_of_jump {loc : Location} {t target : Token} {opcode : UInt8}
    {aim : JumpTarget} (ht : jumpOpcode? t.kind = some opcode) (hlocation : t.AtLocation loc)
    (haim : ∀ addr, JumpsTo labels addr aim →
      target.kind = .reference ∧ labels.find? target.text = some addr ∨ IsWord target addr)
    (hcode : (jump opcode t.position aim).encode strict labels = .ok code) :
    ∃ ops, Performs labels loc.current [t, target] ops ∧ Operation.Decodes code ops := by
  obtain ⟨addr, haddr, rfl, -⟩ := exists_jumpsTo_of_encode hcode
  obtain ⟨op, hop, hdecodes⟩ := exists_jumpOperation? ht (displacement t.position addr)
  have hd := toNat_displacement t.position addr
  rw [hlocation (kind_of_jumpOpcode? ht)] at hd hop hdecodes ⊢
  exact ⟨[op], .jump (haim addr haddr) hd hop, hdecodes⟩

/-- **What a statement encodes to decodes to its operations.**  Its jumps stand at its location, and
its names and registers are those that a line can hold. -/
theorem exists_decodes_of_reads {loc : Location} {tokens : List Token} {i : Instruction}
    (h : Reads tokens i) (hmachine : i.isMachine = true)
    (hlocation : ∀ t ∈ tokens, t.AtLocation loc)
    (hname : ∀ t ∈ tokens, t.kind = .reference → t.text ≠ [])
    (hregister : ∀ t ∈ tokens, t.kind = .register8 → ∃ r, t.register? = some r)
    (hcode : i.encode strict labels = .ok code) :
    ∃ ops, Performs labels loc.current tokens ops ∧ Operation.Decodes code ops := by
  induction h generalizing code with
  | byte | text | origin | offset => cases hmachine
  | @times t n count rest body ht hn hbody horg hfits ih =>
    rw [encode] at hcode
    split at hcode
    · rename_i once honce
      obtain rfl := Except.ok.inj hcode
      have htail {t' : Token} (ht' : t' ∈ rest) : t' ∈ t :: n :: rest :=
        List.mem_cons_of_mem _ (List.mem_cons_of_mem _ ht')
      obtain ⟨ops, hops, hdecodes⟩ := ih hmachine (fun t' ht' => hlocation t' (htail ht'))
        (fun t' ht' => hname t' (htail ht')) (fun t' ht' => hregister t' (htail ht')) honce
      exact ⟨_, .times ht hn hops, hdecodes.replicate count.toNat⟩
    · cases hcode
  | interrupt ht hvector =>
    obtain rfl := Except.ok.inj hcode
    exact ⟨_, .interrupt ht hvector, fun rest => Operation.decode_withByte rfl rfl⟩
  | simple ht =>
    obtain rfl := Except.ok.inj hcode
    obtain ⟨op, hop, hdecodes⟩ := exists_simpleOperation? ht
    exact ⟨[op], .simple hop, hdecodes⟩
  | moveByte ht hr hdst hsrc =>
    obtain rfl := Except.ok.inj hcode
    obtain ⟨k, rfl⟩ := Token.exists_fin_of_register? hr
    exact ⟨_, .moveByte ht hdst hr hsrc, Operation.decodes_moveByte k _⟩
  | moveAddress ht hr hdst hsrc =>
    rw [encode] at hcode
    split at hcode
    · rename_i addr haddr
      obtain rfl := Except.ok.inj hcode
      obtain ⟨k, rfl⟩ := Token.exists_fin_of_register? hr
      exact ⟨_, .moveAddress ht hdst hr hsrc (exists_find?_of_resolve haddr),
        Operation.decodes_moveWord k addr⟩
    · cases hcode
  | moveWord ht hr hdst hsrc =>
    obtain rfl := Except.ok.inj hcode
    obtain ⟨k, rfl⟩ := Token.exists_fin_of_register? hr
    exact ⟨_, .moveWord ht hdst hr hsrc, Operation.decodes_moveWord k _⟩
  | @orBytes t left right ht hleft hright =>
    obtain rfl := Except.ok.inj hcode
    obtain ⟨reg, hreg⟩ := hregister left (by simp) hleft
    obtain ⟨rm, hrm⟩ := hregister right (by simp) hright
    rw [hreg, hrm]
    obtain ⟨k, rfl⟩ := Token.exists_fin_of_register? hreg
    obtain ⟨l, rfl⟩ := Token.exists_fin_of_register? hrm
    exact ⟨_, .orBytes ht hleft hreg hright hrm, Operation.decodes_orBytes k l⟩
  | @jumpName t target op ht htarget =>
    refine exists_decodes_of_jump ht (hlocation t List.mem_cons_self)
      (fun addr haddr => .inl ⟨htarget, ?_⟩) hcode
    -- an empty name would stand for address zero
    have htext : target.text.isEmpty = false := by
      rw [List.isEmpty_eq_false_iff]
      exact hname target (List.mem_cons_of_mem _ List.mem_cons_self) htarget
    simpa [referenceTarget, htext, JumpsTo] using haddr
  | @jumpAddress t target op addr ht htarget =>
    refine exists_decodes_of_jump ht (hlocation t List.mem_cons_self)
      (fun addr' haddr' => .inr ?_) hcode
    obtain rfl : addr = addr' := haddr'
    exact htarget

end Instruction

/-! ### Programs -/

/-- **The operations that a statement of a program stands for**: they are those of its line, read at
its address, which also gives its instruction. -/
def Program.Performs (p : Program) (st : Statement) (ops : List Operation) : Prop :=
  ∃ loc tokens, loc.current = st.address ∧ Token.ofLine loc st.line = .ok tokens ∧
    Instruction.ofTokens (Token.behindLabel tokens) = .ok st.instruction ∧
    Instruction.Performs p.labels st.address (Token.behindLabel tokens) ops

theorem Program.exists_decodes {p : Program} {sts : List Statement} {code : Bytes}
    (hsts : ∀ st ∈ sts, ∀ own, p.encodeStatement st = .ok own →
      ∃ ops, p.Performs st ops ∧ Operation.Decodes own ops)
    (h : p.Encodes sts code) :
    ∃ opss, List.Forall₂ p.Performs sts opss ∧ Operation.Decodes code opss.flatten := by
  induction h with
  | nil => exact ⟨[], .nil, .nil⟩
  | @cons st sts own rest hst hrest ih =>
    obtain ⟨ops, hops, hdecodes⟩ := hsts st List.mem_cons_self own hst
    obtain ⟨opss, hopss, hdecodes'⟩ := ih fun st' hst' => hsts st' (List.mem_cons_of_mem st hst')
    exact ⟨ops :: opss, .cons hops hopss, hdecodes.append hdecodes'⟩

/-- **The machine code decodes back to the program.**  If every statement of a program is an
instruction of the processor, under any number of repetitions, then its code decodes up to the end,
to the operations of the statements one after another. -/
theorem Assembler.decode_of_encode (a : Assembler) (source : Bytes) (p : Program) (code : Bytes)
    (hparse : a.parse source = .ok p)
    (hmachine : ∀ st ∈ p.statements, st.instruction.isMachine = true)
    (hcode : p.encode = .ok code) :
    ∃ opss, List.Forall₂ p.Performs p.statements opss ∧
      Operation.decode code = some opss.flatten := by
  obtain ⟨-, s, hs, rfl⟩ := parse_eq_ok_iff.mp hparse
  obtain ⟨_, rfl, hencodes⟩ := Program.encodes_of_encodeOnto hcode
  have hsts : ∀ st ∈ s.statements.toList, ∀ own,
      Program.encodeStatement ⟨s.statements.toList, s.labels, a.strict⟩ st = .ok own →
      ∃ ops, Program.Performs ⟨s.statements.toList, s.labels, a.strict⟩ st ops ∧
        Operation.Decodes own ops := by
    intro st hst own hown
    obtain ⟨n, s₀, -, hplaced⟩ := exists_placedIn_of_mem hs hst
    obtain ⟨tokens, htokens, hinstruction⟩ := hplaced.reads
    obtain ⟨ops, hops, hdecodes⟩ := Instruction.exists_decodes_of_reads
      (Instruction.reads_of_ofTokens hinstruction) (hmachine st hst)
      (fun t ht => Token.atLocation_of_ofLine htokens (Token.mem_of_mem_behindLabel ht))
      (fun t ht => Token.text_ne_nil_of_ofLine htokens (Token.mem_of_mem_behindLabel ht))
      (fun t ht => Token.exists_register?_of_ofLine htokens (Token.mem_of_mem_behindLabel ht))
      (Program.encodeStatement_eq_ok_iff.mp hown)
    rw [← hplaced.address] at hops
    exact ⟨ops, ⟨s₀.location, tokens, hplaced.address.symm, htokens, hinstruction, hops⟩, hdecodes⟩
  obtain ⟨opss, hopss, hdecodes⟩ := Program.exists_decodes hsts hencodes
  exact ⟨opss, hopss, Operation.decode_eq_of_decodes hdecodes⟩

/-- A loop with a move of an address, two jumps, and a repetition of a repetition. -/
theorem Assembler.decode_of_encode_loop :
    ∃ (a : Assembler) (source : Bytes) (p : Program) (code : Bytes) (opss : List (List Operation)),
      a.parse source = .ok p ∧ (∀ st ∈ p.statements, st.instruction.isMachine = true) ∧
      p.encode = .ok code ∧ List.Forall₂ p.Performs p.statements opss ∧
      opss.flatten = [.moveWord 6 0x7C03, .lodsb, .orBytes 1 7, .jz 6, .interrupt 0x10,
        .interrupt 0x10, .jmp 0xF5, .hlt] := by
  let a : Assembler := { origin := 0x7C00, strict := true }
  let source := Bytes.ofString
    "mov si top\ntop: lodsb\nor cl bh\njz out\ntimes 2 times 1 int 0x10\njmp top\nout: hlt"
  let top := Bytes.ofString "top"
  let out := Bytes.ofString "out"
  let p : Program :=
    ⟨[⟨1, Bytes.ofString "mov si top", 0x7C00, .moveAddress 6 top⟩,
      ⟨2, Bytes.ofString "top: lodsb", 0x7C03, .simple 0xAC⟩,
      ⟨3, Bytes.ofString "or cl bh", 0x7C04, .orBytes 1 7⟩,
      ⟨4, Bytes.ofString "jz out", 0x7C06, .jump 0x74 0x7C06 (.label out)⟩,
      ⟨5, Bytes.ofString "times 2 times 1 int 0x10", 0x7C08, .times 2 (.times 1 (.interrupt 0x10))⟩,
      ⟨6, Bytes.ofString "jmp top", 0x7C0C, .jump 0xEB 0x7C0C (.label top)⟩,
      ⟨7, Bytes.ofString "out: hlt", 0x7C0E, .simple 0xF4⟩],
      (LabelTable.empty.bind top 0x7C03).bind out 0x7C0E, true⟩
  let code : Bytes :=
    [0xBE, 0x03, 0x7C, 0xAC, 0x08, 0xCF, 0x74, 0x06, 0xCD, 0x10, 0xCD, 0x10, 0xEB, 0xF5, 0xF4]
  have hparse : a.parse source = .ok p := rfl
  have hmachine : ∀ st ∈ p.statements, st.instruction.isMachine = true := by decide
  have hcode : p.encode = .ok code := rfl
  have hdecode : Operation.decode code = some [.moveWord 6 0x7C03, .lodsb, .orBytes 1 7, .jz 6,
      .interrupt 0x10, .interrupt 0x10, .jmp 0xF5, .hlt] := by decide
  obtain ⟨opss, hopss, hdecoded⟩ := decode_of_encode a source p code hparse hmachine hcode
  exact ⟨a, source, p, code, opss, hparse, hmachine, hcode, hopss,
    Option.some.inj (hdecoded.symm.trans hdecode)⟩

end BootSector
