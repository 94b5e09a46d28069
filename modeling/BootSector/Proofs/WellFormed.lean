import BootSector.Proofs.Decoding
import BootSector.Proofs.LabelUse
import BootSector.Proofs.Repetition
import BootSector.Proofs.Words

/-!
# Tokens that can be relied on

Reading a statement takes much for granted: that the value of a byte is one, that a register token
names a register, that no reference is empty.  None of it is checked again when the instruction is
built or encoded, where register indices are added to opcodes and an empty name stands for "no
label".  `WellFormed loc t` says what is taken for granted, and every token of a line has it
(`wellFormed_of_made`).  So the fields of an instruction stay in the bits that are theirs, and a
jump is without a name only if its operand is a number (`InOrder`).
-/

namespace BootSector

/-! ### Tokens -/

namespace Token

variable {loc : Location} {t : Token}

/-- **A well-formed token** of a line that is read at a location. -/
structure WellFormed (loc : Location) (t : Token) : Prop where
  /-- The token is of some kind. -/
  kind : t.kind ≠ .none
  /-- The value of a byte is one. -/
  byte : t.kind = .byte → 0 ≤ t.value.toInt ∧ t.value.toInt ≤ 255
  /-- A register has an index in its class. -/
  register : t.kind = .register8 ∨ t.kind = .register16 → ∃ r, t.register? = some r ∧ r ≤ 7
  /-- Labels and references have names, which are not empty. -/
  name : t.kind = .label ∨ t.kind = .reference →
    t.text ≠ [] ∧ ∃ word, IsName word ∧ t.text = Bytes.ofChars word
  /-- A reference is neither a mnemonic nor a register, in lower case. -/
  free : t.kind = .reference → lowerCase t.text ∉ reserved
  /-- A jump knows where it stands. -/
  position : t.kind = .jz ∨ t.kind = .jmp → t.position = loc.current

/-- The kinds of tokens of which something is demanded. -/
def demandingKinds : List TokenKind :=
  [.none, .byte, .register8, .register16, .label, .reference, .jz, .jmp]

theorem wellFormed_of_kind (h : t.kind ∉ demandingKinds) : WellFormed loc t := by
  have hne : ∀ kind ∈ demandingKinds, t.kind ≠ kind := fun kind hkind heq => h (heq ▸ hkind)
  simp only [demandingKinds, List.forall_mem_cons, List.not_mem_nil, false_implies, implies_true,
    and_true] at hne
  obtain ⟨hnone, hbyte, hregister8, hregister16, hlabel, hreference, hjz, hjmp⟩ := hne
  exact ⟨hnone, fun hk => absurd hk hbyte, fun hk => (hk.elim hregister8 hregister16).elim,
    fun hk => (hk.elim hlabel hreference).elim, fun hk => absurd hk hreference,
    fun hk => (hk.elim hjz hjmp).elim⟩

theorem wellFormed_byte (v : UInt8) : WellFormed loc (Token.byte v) := by
  have hlt := v.toNat_lt
  have hvalue : (Int32.ofNat v.toNat).toInt = v.toNat := Int32.toInt_ofNat_of_lt (by omega)
  refine ⟨nofun, fun _ => ?_, nofun, nofun, nofun, nofun⟩
  show 0 ≤ (Int32.ofNat v.toNat).toInt ∧ (Int32.ofNat v.toNat).toInt ≤ 255
  omega

theorem le_seven_of_register? {r : UInt8} (h : t.register? = some r) : r ≤ 7 := by
  have hall : ∀ k : Fin 8, UInt8.ofNat k ≤ 7 := by decide
  obtain ⟨k, rfl⟩ := exists_fin_of_register? h
  exact hall k

theorem wellFormed_of_literal {word : List Char} (h : Literal word t) : WellFormed loc t := by
  cases h with
  | binary | hexByte => exact wellFormed_byte _
  | hexNumber | decimal => exact wellFormed_of_kind (show TokenKind.number ∉ _ by decide)

/-- What a name stands for is well formed. -/
theorem wellFormed_of_naming {word : List Char} (hword : IsName word) (h : Naming loc word t) :
    WellFormed loc t := by
  cases h with
  | @directive kind hkind hjump =>
    have hall : ∀ e ∈ mnemonics, e.2 ≠ .jz ∧ e.2 ≠ .jmp → e.2 ∉ demandingKinds := by decide
    exact wellFormed_of_kind (hall _ hkind hjump)
  | @jump kind hkind hjump =>
    refine ⟨?_, ?_, ?_, ?_, ?_, fun _ => rfl⟩ <;> rcases hjump with rfl | rfl <;> nofun
  | register8 hname =>
    have hall : ∀ name ∈ Register.byteNames, (Register.byteIndex? name).isSome = true := by decide
    obtain ⟨r, hr⟩ := Option.isSome_iff_exists.mp (hall _ hname)
    have hindex : register? { kind := .register8, text := Bytes.ofChars (word.map Text.toLower) } =
        some r := hr
    exact ⟨nofun, nofun, fun _ => ⟨r, hindex, le_seven_of_register? hindex⟩, nofun, nofun, nofun⟩
  | register16 hname =>
    have hall : ∀ name ∈ Register.wordNames, (Register.wordIndex? name).isSome = true := by decide
    obtain ⟨r, hr⟩ := Option.isSome_iff_exists.mp (hall _ hname)
    have hindex : register? { kind := .register16, text := Bytes.ofChars (word.map Text.toLower) } =
        some r := hr
    exact ⟨nofun, nofun, fun _ => ⟨r, hindex, le_seven_of_register? hindex⟩, nofun, nofun, nofun⟩
  | reference hfree =>
    refine ⟨nofun, nofun, nofun, fun _ => ⟨ofChars_ne_nil_of_isName hword, word, hword, rfl⟩,
      fun _ => ?_, nofun⟩
    show lowerCase (Bytes.ofChars word) ∉ reserved
    rw [lowerCase_ofChars]
    exact hfree

/-- **Every token of a line is well formed.** -/
theorem wellFormed_of_made (h : Made loc t) : WellFormed loc t := by
  cases h with
  | string text => exact wellFormed_of_kind (show TokenKind.string ∉ _ by decide)
  | number v => exact wellFormed_of_kind (show TokenKind.number ∉ _ by decide)
  | literal hliteral => exact wellFormed_of_literal (literal_of_ofLiteral hliteral)
  | punctuation hkind =>
    unfold punctuation? at hkind
    split at hkind <;> cases hkind <;> exact wellFormed_of_kind (by decide)
  | @label word hword =>
    exact ⟨nofun, nofun, nofun, fun _ => ⟨ofChars_ne_nil_of_isName hword, word, hword, rfl⟩,
      nofun, nofun⟩
  | name hword => exact wellFormed_of_naming hword (naming_ofName loc _)

end Token

/-! ### Instructions -/

/-- The name of the label that a jump goes to; it is empty for a given address. -/
def JumpTarget.name : JumpTarget → Bytes
  | label name => name
  | address _ => []

namespace Instruction

open Token

variable {loc : Location} {statement : List Token} {i body : Instruction} {counts : List UInt16}

/-- The register fields of an instruction. -/
def registers : Instruction → List UInt8
  | times _ body => body.registers
  | moveByte r _ | moveAddress r _ | moveWord r _ => [r]
  | orBytes reg rm => [reg, rm]
  | _ => []

theorem registers_nested (counts : List UInt16) (body : Instruction) :
    (nested counts body).registers = body.registers := by
  induction counts with
  | nil => rfl
  | cons count counts ih => exact ih

/-- **The fields of an instruction are in order**, below any repetitions: its registers fit the bits
that are theirs in the opcode or in the operand byte, and a jump has a name unless its operand, the
last token of the statement, is a number. -/
structure InOrder (statement : List Token) (i : Instruction) : Prop where
  /-- Every register field is an index. -/
  registers : ∀ r ∈ i.registers, r ≤ 7
  /-- The opcode of a move to a byte register. -/
  moveByte : ∀ counts r value, i = nested counts (.moveByte r value) → ∀ strict labels, ∃ opcode,
    (Instruction.moveByte r value).encode strict labels = .ok [opcode, value] ∧
      0xB0 ≤ opcode ∧ opcode ≤ 0xB7
  /-- The opcode of a move to a word register. -/
  moveWord : ∀ counts r value, i = nested counts (.moveWord r value) → ∀ strict labels, ∃ opcode,
    (Instruction.moveWord r value).encode strict labels =
      .ok (opcode :: Bytes.littleEndian value) ∧ 0xB8 ≤ opcode ∧ opcode ≤ 0xBF
  /-- The opcode of a move of an address, if the label has one. -/
  moveAddress : ∀ counts r name, i = nested counts (.moveAddress r name) →
    ∀ strict (labels : LabelTable) addr, labels.resolve name = .ok addr → ∃ opcode,
      (Instruction.moveAddress r name).encode strict labels =
        .ok (opcode :: Bytes.littleEndian addr) ∧ 0xB8 ≤ opcode ∧ opcode ≤ 0xBF
  /-- The operand byte of two byte registers. -/
  orBytes : ∀ counts reg rm, i = nested counts (.orBytes reg rm) → ∀ strict labels, ∃ operand,
    (Instruction.orBytes reg rm).encode strict labels = .ok [Opcode.orBytes, operand] ∧
      0xC0 ≤ operand ∧ operand.toNat = 0xC0 + 8 * reg.toNat + rm.toNat
  /-- A jump has no name exactly if its operand is a number. -/
  jump : ∀ counts opcode position target, i = nested counts (.jump opcode position target) →
    (target.name = [] ↔ ∃ t ∈ statement.getLast?, t.kind = .number)

theorem toNat_add_register {base r : UInt8} (hbase : base.toNat ≤ 248) (hr : r ≤ 7) :
    (base + r).toNat = base.toNat + r.toNat := by
  have hle : r.toNat ≤ 7 := UInt8.le_iff_toNat_le.mp hr
  rw [UInt8.toNat_add]
  omega

/-- An opcode with a register in it stays among the eight from its base on. -/
theorem opcode_add_register {base r : UInt8} (hbase : base.toNat ≤ 248) (hr : r ≤ 7) :
    base ≤ base + r ∧ base + r ≤ base + 7 := by
  have hle : r.toNat ≤ 7 := UInt8.le_iff_toNat_le.mp hr
  rw [UInt8.le_iff_toNat_le, UInt8.le_iff_toNat_le, toNat_add_register hbase hr,
    toNat_add_register hbase (by decide)]
  show _ ∧ _ ≤ base.toNat + 7
  omega

/-- The fields of an operand byte do not run into each other. -/
theorem toNat_operand {reg rm : UInt8} (hreg : reg ≤ 7) (hrm : rm ≤ 7) :
    (Opcode.registerDirect ||| (reg <<< 3) ||| rm).toNat =
      0xC0 + 8 * reg.toNat + rm.toNat := by
  have hall : ∀ k l : Fin 8,
      (Opcode.registerDirect ||| (UInt8.ofNat k <<< 3) ||| UInt8.ofNat l).toNat =
        0xC0 + 8 * (UInt8.ofNat k).toNat + (UInt8.ofNat l).toNat := by decide
  have hfin {r : UInt8} (hr : r ≤ 7) : ∃ k : Fin 8, UInt8.ofNat k = r := by
    have hle : r.toNat ≤ 7 := UInt8.le_iff_toNat_le.mp hr
    exact ⟨⟨r.toNat, by omega⟩, UInt8.ofNat_toNat⟩
  obtain ⟨k, rfl⟩ := hfin hreg
  obtain ⟨l, rfl⟩ := hfin hrm
  exact hall k l

/-- The registers of a statement are indices. -/
theorem registers_le_of_reads (h : Reads statement i)
    (hwell : ∀ t ∈ statement, WellFormed loc t) : ∀ r ∈ i.registers, r ≤ 7 := by
  induction h with
  | times ht hn hbody horg hfits ih =>
    exact ih fun t ht => hwell t (List.mem_cons_of_mem _ (List.mem_cons_of_mem _ ht))
  | moveByte ht hr | moveAddress ht hr | moveWord ht hr =>
    rw [registers, List.forall_mem_singleton]
    exact le_seven_of_register? hr
  | @orBytes t reg rm ht hreg hrm =>
    obtain ⟨k, hk, hkle⟩ := (hwell reg (by simp)).register (.inl hreg)
    obtain ⟨l, hl, hlle⟩ := (hwell rm (by simp)).register (.inl hrm)
    rw [registers, hk, hl, List.forall_mem_cons, List.forall_mem_singleton]
    exact ⟨hkle, hlle⟩
  | _ => nofun

/-- A jump has no name exactly if its operand is a number. -/
theorem name_eq_nil_iff_of_reads {opcode : UInt8} {position : UInt16} {target : JumpTarget}
    (h : Reads statement (nested counts (.jump opcode position target)))
    (hwell : ∀ t ∈ statement, WellFormed loc t) :
    target.name = [] ↔ ∃ t ∈ statement.getLast?, t.kind = .number := by
  induction counts generalizing statement with
  | nil =>
    cases h with
    | @jumpName t operand op ht hoperand =>
      have hne : operand.text ≠ [] := ((hwell operand (by simp)).name (.inr hoperand)).1
      have hempty : ¬ operand.text.isEmpty = true := fun h => hne (List.isEmpty_iff.mp h)
      simp [referenceTarget, hempty, JumpTarget.name, hne, hoperand]
    | @jumpAddress t operand op addr ht hoperand => simp [JumpTarget.name, hoperand.1]
  | cons count counts ih =>
    cases h with
    | @times t n _ rest _ ht hn hbody horg hfits =>
      have hlast : (t :: n :: rest).getLast? = rest.getLast? := by
        obtain ⟨u, us, rfl⟩ := List.exists_cons_of_ne_nil (ne_nil_of_reads hbody)
        rw [List.getLast?_cons_cons, List.getLast?_cons_cons]
      rw [hlast]
      exact ih hbody fun t ht => hwell t (List.mem_cons_of_mem _ (List.mem_cons_of_mem _ ht))

/-- **A statement of well-formed tokens denotes an instruction with its fields in order.** -/
theorem inOrder_of_reads (h : Reads statement i) (hwell : ∀ t ∈ statement, WellFormed loc t) :
    i.InOrder statement := by
  have hregisters := registers_le_of_reads h hwell
  refine ⟨hregisters, ?_, ?_, ?_, ?_, ?_⟩
  · rintro counts r value rfl strict labels
    rw [registers_nested] at hregisters
    exact ⟨_, rfl, opcode_add_register (by decide) (hregisters r List.mem_cons_self)⟩
  · rintro counts r value rfl strict labels
    rw [registers_nested] at hregisters
    exact ⟨_, rfl, opcode_add_register (by decide) (hregisters r List.mem_cons_self)⟩
  · rintro counts r name rfl strict labels addr haddr
    rw [registers_nested] at hregisters
    refine ⟨_, ?_, opcode_add_register (by decide) (hregisters r List.mem_cons_self)⟩
    rw [encode, haddr]
    rfl
  · rintro counts reg rm rfl strict labels
    rw [registers_nested] at hregisters
    have hoperand := toNat_operand (hregisters reg List.mem_cons_self)
      (hregisters rm (List.mem_cons_of_mem _ List.mem_cons_self))
    refine ⟨_, rfl, UInt8.le_iff_toNat_le.mpr ?_, hoperand⟩
    rw [hoperand]
    show 0xC0 ≤ _
    omega
  · rintro counts opcode position target rfl
    exact name_eq_nil_iff_of_reads h hwell

end Instruction

/-- **What is read from a line can be relied on.**  Its tokens are well formed, and so the fields of
every instruction that is made of them are in order. -/
theorem Token.wellFormed_of_ofLine (loc : Location) (line : Bytes) (tokens : List Token)
    (h : ofLine loc line = .ok tokens) :
    (∀ t ∈ tokens, WellFormed loc t) ∧
      ∀ statement i, (∀ t ∈ statement, t ∈ tokens) → Instruction.ofTokens statement = .ok i →
        i.InOrder statement := by
  have hwell : ∀ t ∈ tokens, WellFormed loc t := fun t ht =>
    wellFormed_of_made (made_of_ofLine h ht)
  refine ⟨hwell, fun statement i hmem hi => ?_⟩
  exact Instruction.inOrder_of_reads (Instruction.reads_of_ofTokens hi) fun t ht =>
    hwell t (hmem t ht)

/-- Behind a label, registers of either case below a repetition. -/
theorem Token.wellFormed_of_ofLine_repeated : ∃ tokens,
    ofLine ⟨0x7C00, 0x7C05⟩ (Bytes.ofString "top: times 2 or BL dh") = .ok tokens ∧
    (∀ t ∈ tokens, WellFormed ⟨0x7C00, 0x7C05⟩ t) ∧
    Instruction.ofTokens (tokens.drop 1) = .ok (.times 2 (.orBytes 3 6)) ∧
    (Instruction.times 2 (.orBytes 3 6)).InOrder (tokens.drop 1) := by
  let tokens := [label (Bytes.ofString "top"), ofKind .times, number 2, ofKind .or,
    { kind := .register8, text := Bytes.ofString "bl" },
    { kind := .register8, text := Bytes.ofString "dh" }]
  have hline : ofLine ⟨0x7C00, 0x7C05⟩ (Bytes.ofString "top: times 2 or BL dh") = .ok tokens := by
    decide +kernel
  have hread : Instruction.ofTokens (tokens.drop 1) = .ok (.times 2 (.orBytes 3 6)) := by decide
  obtain ⟨hwell, horder⟩ := wellFormed_of_ofLine _ _ tokens hline
  exact ⟨tokens, hline, hwell, hread, horder _ _ (fun t ht => List.mem_of_mem_drop ht) hread⟩

end BootSector
