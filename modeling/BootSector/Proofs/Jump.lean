import BootSector.Proofs.Placement
import BootSector.Proofs.Tokens

/-!
# Jumps

A jump token takes its position from the location counter when its line is read, long before the
target is known.  The proof that jumps land has three parts.

* `atLocation_of_ofLine`: scanning and folding give no other jump tokens than those at the current
  location, which is the address of the statement on the line.
* `Lands position target d` says what displacement is wanted.  `inRange_iff` and `eq_of_lands` show
  that the range test on a wrapped 16-bit distance finds out whether there is one, and that the low
  byte of the distance is it.
* `jump_lands` puts them together for the statements of a program.
-/

namespace BootSector

/-! ### Jump tokens -/

namespace Token

variable {loc : Location}

/-- **A jump token stands at the current location.**  Other tokens have no place. -/
def AtLocation (loc : Location) (t : Token) : Prop :=
  t.kind = .jz ∨ t.kind = .jmp → t.position = loc.current

theorem AtLocation.of_kind {t : Token} (hjz : t.kind ≠ .jz) (hjmp : t.kind ≠ .jmp) :
    AtLocation loc t := fun h => (h.elim hjz hjmp).elim

theorem AtLocation.of_isValue {t : Token} (h : t.isValue) : AtLocation loc t := by
  rw [isValue, Bool.or_eq_true, beq_iff_eq, beq_iff_eq] at h
  rcases h with h | h <;> exact .of_kind (by rw [h]; nofun) (by rw [h]; nofun)

theorem atLocation_ofName (word : List Char) : AtLocation loc (ofName loc word) := by
  dsimp only [ofName]
  split
  · rename_i kind _
    split_ifs with hkind
    · exact fun _ => rfl
    · rw [not_or] at hkind
      exact .of_kind hkind.1 hkind.2
  · unfold ofRegister?
    split_ifs <;> exact .of_kind nofun nofun

/-- **Every jump token of a line stands at the location where the line is read.** -/
theorem atLocation_of_ofLine {line : Bytes} {tokens : List Token} {t : Token}
    (h : ofLine loc line = .ok tokens) (ht : t ∈ tokens) : AtLocation loc t := by
  cases made_of_ofLine h ht with
  | string text => exact .of_kind nofun nofun
  | number v => exact .of_kind nofun nofun
  | literal hliteral => exact .of_isValue (isValue_of_ofLiteral hliteral)
  | punctuation hkind =>
    unfold punctuation? at hkind
    split at hkind <;> cases hkind <;> exact .of_kind nofun nofun
  | label hname => exact .of_kind nofun nofun
  | name hname => exact atLocation_ofName _

theorem mem_of_mem_behindLabel {tokens : List Token} {t : Token} (h : t ∈ behindLabel tokens) :
    t ∈ tokens := by
  cases tokens with
  | nil => exact h
  | cons first rest =>
    rw [behindLabel] at h
    split at h
    · exact List.mem_cons_of_mem first h
    · exact h

end Token

namespace Instruction

/-! ### Displacements -/

/-- **The byte `d` takes a jump to its target**: `d` is a signed byte, and counting on from behind
the jump by `d` ends at the target, modulo 2¹⁶. -/
def Lands (position target : UInt16) (d : Int) : Prop :=
  -128 ≤ d ∧ d ≤ 127 ∧ (position.toNat + 2 + d) % 65536 = target.toNat

/-- The way from behind a jump to its target, upwards and modulo 2¹⁶. -/
theorem toNat_gap (position target : UInt16) :
    ((target - (position + jumpLength)).toNat : Int) =
      ((target.toNat : Int) - (position.toNat + 2)) % 65536 := by
  have ht : target.toNat < 65536 := target.toNat_lt
  have hp : position.toNat < 65536 := position.toNat_lt
  have hlength : jumpLength.toNat = 2 := rfl
  rw [UInt16.toNat_sub, UInt16.toNat_add, hlength]
  omega

/-- The distance is the signed residue of the gap modulo 2¹⁶. -/
theorem toInt_distance (position target : UInt16) :
    (distance position target).toInt =
      ((target.toNat : Int) - (position.toNat + 2)).bmod 65536 := by
  rw [distance, ← Int16.toInt_toBitVec, UInt16.toBitVec_toInt16, BitVec.toInt_eq_toNat_bmod,
    UInt16.toNat_toBitVec, toNat_gap]
  exact Int.emod_bmod _ 65536

theorem toNat_displacement (position target : UInt16) :
    ((displacement position target).toNat : Int) =
      ((target.toNat : Int) - (position.toNat + 2)) % 256 := by
  have hgap := toNat_gap position target
  rw [displacement, UInt16.toNat_toUInt8]
  omega

/-- The displacement byte, read as a signed number. -/
theorem toInt_displacement (position target : UInt16) :
    (displacement position target).toInt8.toInt =
      ((target.toNat : Int) - (position.toNat + 2)).bmod 256 := by
  rw [← Int8.toInt_toBitVec, UInt8.toBitVec_toInt8, BitVec.toInt_eq_toNat_bmod,
    UInt8.toNat_toBitVec, toNat_displacement]
  exact Int.emod_bmod _ 256

/-- The range test finds out whether some signed byte takes the jump to its target. -/
theorem inRange_iff {position target : UInt16} :
    inRange position target = true ↔ ∃ d, Lands position target d := by
  have ht : target.toNat < 65536 := target.toNat_lt
  have hd := toInt_distance position target
  rw [Int.bmod_def] at hd
  have hlow : (-128 : Int16).toInt = -128 := rfl
  have hhigh : (127 : Int16).toInt = 127 := rfl
  rw [inRange, Bool.and_eq_true, decide_eq_true_iff, decide_eq_true_iff, Int16.le_iff_toInt_le,
    Int16.le_iff_toInt_le, hlow, hhigh]
  -- a signed byte that lands is the distance, as the two differ by a multiple of 2¹⁶ and both are
  -- below 2¹⁵ in magnitude
  constructor
  · intro h
    exact ⟨(distance position target).toInt, h.1, h.2, by split at hd <;> omega⟩
  · rintro ⟨d, hd₁, hd₂, hland⟩
    split at hd <;> omega

/-- The displacement byte is the only one that takes the jump to its target. -/
theorem eq_of_lands {position target : UInt16} {d : Int} (h : Lands position target d) :
    (displacement position target).toInt8.toInt = d := by
  obtain ⟨hlow, hhigh, hland⟩ := h
  rw [toInt_displacement, Int.bmod_def]
  split <;> omega

/-! ### Encodings -/

/-- **The address that a jump target stands for**, against a label table. -/
def JumpsTo (labels : LabelTable) (addr : UInt16) : JumpTarget → Prop
  | .label name => labels.find? name = some addr
  | .address addr' => addr' = addr

theorem resolve_of_jumpsTo {labels : LabelTable} {addr : UInt16} {target : JumpTarget}
    (h : JumpsTo labels addr target) : target.resolve labels = .ok addr := by
  cases target with
  | label name =>
    rw [JumpsTo] at h
    simp only [JumpTarget.resolve, LabelTable.resolve, h]
  | address addr' =>
    obtain rfl : addr' = addr := h
    rfl

theorem encode_jump {labels : LabelTable} {addr : UInt16} {target : JumpTarget}
    (h : JumpsTo labels addr target) (strict : Bool) (opcode : UInt8) (position : UInt16) :
    (jump opcode position target).encode strict labels =
      if strict && !inRange position addr then .error .displacementOutOfRange
      else .ok [opcode, displacement position addr] := by
  simp only [encode, resolve_of_jumpsTo h]

/-- A jump takes its position from its mnemonic. -/
theorem position_of_reads {tokens : List Token} {opcode : UInt8} {position : UInt16}
    {target : JumpTarget} (h : Reads tokens (.jump opcode position target)) :
    ∃ t ∈ tokens, (t.kind = .jz ∨ t.kind = .jmp) ∧ position = t.position := by
  cases h with
  | jumpName ht | jumpAddress ht => exact ⟨_, List.mem_cons_self, kind_of_jumpOpcode? ht, rfl⟩

end Instruction

/-! ### Jumps of a program -/

/-- The position of a jump is the address of its statement. -/
theorem Assembler.position_eq_address {a : Assembler} {lines : List Bytes} {s : Sweep}
    {st : Statement} {opcode : UInt8} {position : UInt16} {target : JumpTarget}
    (h : a.after lines = some s) (hst : st ∈ s.statements.toList)
    (hjump : st.instruction = .jump opcode position target) : position = st.address := by
  obtain ⟨n, s₀, -, hplaced⟩ := exists_placedIn_of_mem h hst
  obtain ⟨tokens, htokens, hinstruction⟩ := hplaced.reads
  rw [hjump] at hinstruction
  obtain ⟨t, ht, hkind, rfl⟩ := Instruction.position_of_reads
    (Instruction.reads_of_ofTokens hinstruction)
  rw [hplaced.address]
  exact Token.atLocation_of_ofLine htokens (Token.mem_of_mem_behindLabel ht) hkind

/-- **Jumps land on their targets.**  A jump of a program has its statement's address as position.
If its target stands for an address, then the lenient encoding has the low byte of the distance; the
strict encoding succeeds exactly if some signed byte takes the jump to its target, has that byte,
and otherwise is out of range. -/
theorem Assembler.jump_lands (a : Assembler) (source : Bytes) (p : Program) (st : Statement)
    (opcode : UInt8) (position : UInt16) (target : JumpTarget)
    (hparse : a.parse source = .ok p) (hst : st ∈ p.statements)
    (hjump : st.instruction = .jump opcode position target) :
    position = st.address ∧ ∀ addr, Instruction.JumpsTo p.labels addr target →
      (∃ b, st.instruction.encode false p.labels = .ok [opcode, b] ∧
        (b.toNat : Int) = ((addr.toNat : Int) - (st.address.toNat + 2)) % 256) ∧
      ((∃ code, st.instruction.encode true p.labels = .ok code) ↔
        ∃ d, Instruction.Lands st.address addr d) ∧
      (∀ d, Instruction.Lands st.address addr d →
        ∃ b, st.instruction.encode true p.labels = .ok [opcode, b] ∧ b.toInt8.toInt = d) ∧
      ((¬ ∃ d, Instruction.Lands st.address addr d) →
        st.instruction.encode true p.labels = .error .displacementOutOfRange) := by
  obtain ⟨-, s, hs, rfl⟩ := parse_eq_ok_iff.mp hparse
  obtain rfl : position = st.address := position_eq_address hs hst hjump
  refine ⟨rfl, fun addr haddr => ?_⟩
  have hencode (strict : Bool) := Instruction.encode_jump haddr strict opcode st.address
  rw [hjump, hencode, hencode, ← Instruction.inRange_iff]
  refine ⟨⟨_, rfl, Instruction.toNat_displacement st.address addr⟩, ?_, fun d hd => ?_, ?_⟩
  · cases Instruction.inRange st.address addr <;> simp
  · have hrange := Instruction.inRange_iff.mpr ⟨d, hd⟩
    simp only [hrange, Bool.not_true, Bool.and_false, Bool.false_eq_true, if_false]
    exact ⟨_, rfl, Instruction.eq_of_lands hd⟩
  · intro hrange
    rw [Bool.not_eq_true] at hrange
    simp only [hrange, Bool.not_false, Bool.and_true, if_true]

/-- The last six bytes of the address space, behind an `org`: a labelled jump across its end, a jump
back to the label, and a jump that is one byte too far. -/
theorem Assembler.jump_lands_across_end :
    ∃ (p : Program) (across back far : Statement),
      ({} : Assembler).parse
        (Bytes.ofString "org 0xFFFA\nhere: jmp 0x0003\njz here\njmp 0x0080\n") = .ok p ∧
      p.statements = [across, back, far] ∧
      across.instruction = .jump 0xEB 0xFFFA (.address 0x0003) ∧
      back.instruction = .jump 0x74 0xFFFC (.label (Bytes.ofString "here")) ∧
      far.instruction = .jump 0xEB 0xFFFE (.address 0x0080) ∧
      (∃ b, across.instruction.encode true p.labels = .ok [0xEB, b] ∧ b.toInt8.toInt = 7) ∧
      (∃ b, back.instruction.encode true p.labels = .ok [0x74, b] ∧ b.toInt8.toInt = -4) ∧
      far.instruction.encode true p.labels = .error .displacementOutOfRange := by
  let source := Bytes.ofString "org 0xFFFA\nhere: jmp 0x0003\njz here\njmp 0x0080\n"
  let here := Bytes.ofString "here"
  let across : Statement :=
    ⟨2, Bytes.ofString "here: jmp 0x0003", 0xFFFA, .jump 0xEB 0xFFFA (.address 0x0003)⟩
  let back : Statement := ⟨3, Bytes.ofString "jz here", 0xFFFC, .jump 0x74 0xFFFC (.label here)⟩
  let far : Statement :=
    ⟨4, Bytes.ofString "jmp 0x0080", 0xFFFE, .jump 0xEB 0xFFFE (.address 0x0080)⟩
  let p : Program := ⟨[across, back, far], LabelTable.empty.bind here 0xFFFA, false⟩
  have hparse : ({} : Assembler).parse source = .ok p := rfl
  have hlands (st : Statement) (opcode : UInt8) (position : UInt16) (target : JumpTarget) :=
    jump_lands {} source p st opcode position target hparse
  refine ⟨p, across, back, far, hparse, rfl, rfl, rfl, rfl, ?_, ?_, ?_⟩
  · exact ((hlands across 0xEB _ _ (by simp [p]) rfl).2 0x0003 rfl).2.2.1 7
      ⟨by decide, by decide, by decide⟩
  · exact ((hlands back 0x74 _ _ (by simp [p]) rfl).2 0xFFFA rfl).2.2.1 (-4)
      ⟨by decide, by decide, by decide⟩
  · refine ((hlands far 0xEB _ _ (by simp [p]) rfl).2 0x0080 rfl).2.2.2 ?_
    rintro ⟨d, hlow, hhigh, hland⟩
    have hland : ((65534 : Int) + 2 + d) % 65536 = 128 := hland
    omega

end BootSector
