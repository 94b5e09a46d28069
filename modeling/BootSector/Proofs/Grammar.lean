import BootSector.Instruction.Parse
import Mathlib.Tactic.SplitIfs

/-!
# The statement grammar

`Reads tokens i` says that the token list `tokens` is a statement and denotes the instruction `i`:
one rule for each form of statement, with the range of every operand.  `times` is the only recursive
rule; it repeats a statement other than `org` whose copies fit 64K together.

`reads_of_ofTokens`: the instruction of a statement is the one that the grammar gives it.  So what
holds for every rule of the grammar holds for every instruction that is read from tokens.  And every
statement of the grammar is read (`ofTokens_of_reads`).
-/

namespace BootSector.Instruction

/-! ### The rules -/

/-- The opcode of a mnemonic that takes no operand. -/
def simpleOpcode? : TokenKind → Option UInt8
  | .hlt => some Opcode.hlt
  | .cli => some Opcode.cli
  | .lodsb => some Opcode.lodsb
  | _ => none

/-- The opcode of a jump mnemonic. -/
def jumpOpcode? : TokenKind → Option UInt8
  | .jz => some Opcode.jz
  | .jmp => some Opcode.jmp
  | _ => none

theorem kind_of_jumpOpcode? {kind : TokenKind} {opcode : UInt8}
    (h : jumpOpcode? kind = some opcode) : kind = .jz ∨ kind = .jmp := by
  unfold jumpOpcode? at h
  split at h
  · exact .inl rfl
  · exact .inr rfl
  · cases h

/-- The token is a number from 0 to 65535, with the word `w` as its value. -/
def IsWord (t : Token) (w : UInt16) : Prop :=
  t.kind = .number ∧ 0 ≤ t.value ∧ t.value ≤ 65535 ∧ w = t.value.toUInt32.toUInt16

/-- **The statement grammar**: the tokens are a statement that denotes the instruction. -/
inductive Reads : List Token → Instruction → Prop where
  | byte {t : Token} (ht : t.kind = .byte) : Reads [t] (.byte (lowByte t))
  | text {t : Token} (ht : t.kind = .string) (hlen : t.text.length ≤ 65535) :
    Reads [t] (.text t.text)
  | times {t n : Token} {count : UInt16} {rest : List Token} {body : Instruction}
    (ht : t.kind = .times) (hn : IsWord n count) (hbody : Reads rest body)
    (horg : body.isOrigin = false) (hfits : body.length.toNat * count.toNat ≤ 65535) :
    Reads (t :: n :: rest) (.times count body)
  | origin {t n : Token} {addr : UInt16} (ht : t.kind = .org) (hn : IsWord n addr) :
    Reads [t, n] (.origin addr)
  | offset {t name amount : Token} (ht : t.kind = .offset) (hname : name.kind = .reference)
    (hamount : amount.kind = .number) :
    Reads [t, name, amount] (.offset name.text amount.value)
  | interrupt {t vector : Token} (ht : t.kind = .int) (hvector : vector.kind = .byte) :
    Reads [t, vector] (.interrupt (lowByte vector))
  | simple {t : Token} {op : UInt8} (ht : simpleOpcode? t.kind = some op) :
    Reads [t] (.simple op)
  | moveByte {t dst src : Token} {r : UInt8} (ht : t.kind = .mov) (hr : dst.register? = some r)
    (hdst : dst.kind = .register8) (hsrc : src.kind = .byte) :
    Reads [t, dst, src] (.moveByte r (lowByte src))
  | moveAddress {t dst src : Token} {r : UInt8} (ht : t.kind = .mov) (hr : dst.register? = some r)
    (hdst : dst.kind = .register16) (hsrc : src.kind = .reference) :
    Reads [t, dst, src] (.moveAddress r src.text)
  | moveWord {t dst src : Token} {r : UInt8} (ht : t.kind = .mov) (hr : dst.register? = some r)
    (hdst : dst.kind = .register16) (hsrc : src.kind = .number) (hlo : -32768 ≤ src.value)
    (hhi : src.value ≤ 65535) :
    Reads [t, dst, src] (.moveWord r src.value.toUInt32.toUInt16)
  | orBytes {t reg rm : Token} (ht : t.kind = .or) (hreg : reg.kind = .register8)
    (hrm : rm.kind = .register8) :
    Reads [t, reg, rm] (.orBytes (reg.register?.getD 0) (rm.register?.getD 0))
  | jumpName {t target : Token} {op : UInt8} (ht : jumpOpcode? t.kind = some op)
    (htarget : target.kind = .reference) :
    Reads [t, target] (.jump op t.position (referenceTarget target.text))
  | jumpAddress {t target : Token} {op : UInt8} {addr : UInt16} (ht : jumpOpcode? t.kind = some op)
    (htarget : IsWord target addr) :
    Reads [t, target] (.jump op t.position (.address addr))

/-! ### Operands -/

theorem atEnd_ok {rest : List Token} {i j : Instruction} (h : atEnd rest i = .ok j) :
    rest = [] ∧ j = i := by
  unfold atEnd at h
  split_ifs at h with hrest
  exact ⟨List.isEmpty_iff.mp hrest, (Except.ok.inj h).symm⟩

theorem isWord_of_count {t : Token} {w : UInt16} (h : count t = .ok w) : IsWord t w := by
  unfold count at h
  split_ifs at h with hkind hneg hbig
  exact ⟨Decidable.not_not.mp hkind, Int32.not_lt.mp hneg, Int32.not_lt.mp hbig,
    (Except.ok.inj h).symm⟩

theorem count_of_isWord {t : Token} {w : UInt16} (h : IsWord t w) : count t = .ok w := by
  obtain ⟨hkind, hlow, hhigh, rfl⟩ := h
  rw [count, if_neg (Decidable.not_not.mpr hkind), if_neg (Int32.not_lt.mpr hlow),
    if_neg (Int32.not_lt.mpr hhigh)]

/-! ### Each form of statement -/

theorem reads_of_ofOrg {t : Token} {args : List Token} {i : Instruction} (ht : t.kind = .org)
    (h : ofOrg args = .ok i) : Reads (t :: args) i := by
  unfold ofOrg at h
  split at h
  · split at h
    · rename_i addr hn
      obtain ⟨rfl, rfl⟩ := atEnd_ok h
      exact .origin ht (isWord_of_count hn)
    · cases h
  · cases h

theorem reads_of_ofOffset {t : Token} {args : List Token} {i : Instruction}
    (ht : t.kind = .offset) (h : ofOffset args = .ok i) : Reads (t :: args) i := by
  unfold ofOffset at h
  split at h
  · split_ifs at h with hkinds
    obtain ⟨rfl, rfl⟩ := atEnd_ok h
    exact .offset ht hkinds.1 hkinds.2
  · cases h

theorem reads_of_ofInt {t : Token} {args : List Token} {i : Instruction} (ht : t.kind = .int)
    (h : ofInt args = .ok i) : Reads (t :: args) i := by
  unfold ofInt at h
  split at h
  · split_ifs at h with hkind
    obtain ⟨rfl, rfl⟩ := atEnd_ok h
    exact .interrupt ht hkind
  · cases h

theorem reads_of_ofMov {t : Token} {args : List Token} {i : Instruction} (ht : t.kind = .mov)
    (h : ofMov args = .ok i) : Reads (t :: args) i := by
  unfold ofMov at h
  split at h
  · split at h
    · cases h
    · rename_i r hr
      -- the three pairs of operands that a move can have
      split at h
      · rename_i hdst hsrc
        obtain rfl := Except.ok.inj h
        exact .moveByte ht hr hdst hsrc
      · rename_i hdst hsrc
        obtain rfl := Except.ok.inj h
        exact .moveAddress ht hr hdst hsrc
      · rename_i hdst hsrc
        split_ifs at h with hrange
        obtain rfl := Except.ok.inj h
        rw [not_or] at hrange
        exact .moveWord ht hr hdst hsrc (Int32.not_lt.mp hrange.1) (Int32.not_lt.mp hrange.2)
      · cases h
  · cases h

theorem reads_of_ofOr {t : Token} {args : List Token} {i : Instruction} (ht : t.kind = .or)
    (h : ofOr args = .ok i) : Reads (t :: args) i := by
  unfold ofOr at h
  split at h
  · split_ifs at h with hkinds
    obtain ⟨rfl, rfl⟩ := atEnd_ok h
    exact .orBytes ht hkinds.1 hkinds.2
  · cases h

theorem reads_of_ofJump {t : Token} {op : UInt8} {args : List Token} {i : Instruction}
    (ht : jumpOpcode? t.kind = some op) (h : ofJump op t.position args = .ok i) :
    Reads (t :: args) i := by
  unfold ofJump at h
  split at h
  · split at h
    · rename_i hkind
      obtain rfl := Except.ok.inj h
      exact .jumpName ht hkind
    · rename_i hkind
      split_ifs at h with hrange
      obtain rfl := Except.ok.inj h
      rw [not_or] at hrange
      exact .jumpAddress ht
        ⟨hkind, Int32.not_lt.mp hrange.1, Int32.not_lt.mp hrange.2, rfl⟩
    · cases h
  · cases h

theorem repeated_ok {count : UInt16} {body i : Instruction} (h : repeated count body = .ok i) :
    body.isOrigin = false ∧ body.length.toNat * count.toNat ≤ 65535 ∧ i = .times count body := by
  unfold repeated at h
  split_ifs at h with horg hbig
  exact ⟨Bool.eq_false_iff.mpr horg, Nat.not_lt.mp hbig, (Except.ok.inj h).symm⟩

/-! ### Statements -/

/-- **The instruction that is read from a token list is the one that the grammar gives it.** -/
theorem reads_of_ofTokens {tokens : List Token} {i : Instruction} (h : ofTokens tokens = .ok i) :
    Reads tokens i := by
  fun_induction ofTokens tokens generalizing i with
  | case2 t args ht =>
    obtain ⟨rfl, rfl⟩ := atEnd_ok h
    exact .byte ht
  | case4 t args ht hlen =>
    obtain ⟨rfl, rfl⟩ := atEnd_ok h
    exact .text ht (Nat.not_lt.mp hlen)
  | case9 t ht n rest count hn hrest body hbody ih =>
    -- the only recursive rule: the copies are counted with the wrapped length of the body
    obtain ⟨horg, hfits, rfl⟩ := repeated_ok h
    exact .times ht (isWord_of_count hn) (ih hbody) horg hfits
  | case10 t args ht => exact reads_of_ofOrg ht h
  | case11 t args ht => exact reads_of_ofOffset ht h
  | case12 t args ht => exact reads_of_ofInt ht h
  | case13 t args ht | case14 t args ht | case15 t args ht =>
    obtain ⟨rfl, rfl⟩ := atEnd_ok h
    exact .simple (by rw [ht]; rfl)
  | case16 t args ht => exact reads_of_ofMov ht h
  | case17 t args ht => exact reads_of_ofOr ht h
  | case18 t args ht | case19 t args ht => exact reads_of_ofJump (by rw [ht]; rfl) h
  | _ => cases h

/-- A repetition is read from its body. -/
theorem ofTokens_times {t n : Token} {count : UInt16} {rest : List Token} (ht : t.kind = .times)
    (hn : IsWord n count) (hrest : rest ≠ []) :
    ofTokens (t :: n :: rest) =
      match ofTokens rest with
      | .ok body => repeated count body
      | .error e => .error e := by
  have hempty : rest.isEmpty = false := List.isEmpty_eq_false_iff.mpr hrest
  rw [ofTokens.eq_def]
  simp only [ht, count_of_isWord hn, hempty]
  cases ofTokens rest <;> rfl

theorem ne_nil_of_reads {tokens : List Token} {i : Instruction} (h : Reads tokens i) :
    tokens ≠ [] := by
  rintro rfl
  cases h

theorem repeated_of_fits {count : UInt16} {body : Instruction} (horg : body.isOrigin = false)
    (hfits : body.length.toNat * count.toNat ≤ 65535) :
    repeated count body = .ok (.times count body) := by
  rw [repeated, horg, if_neg Bool.false_ne_true, if_neg (Nat.not_lt.mpr hfits)]

theorem ofTokens_jump {t : Token} {op : UInt8} (ht : jumpOpcode? t.kind = some op)
    (args : List Token) : ofTokens (t :: args) = ofJump op t.position args := by
  unfold jumpOpcode? at ht
  split at ht
  · rename_i hkind
    obtain rfl := Option.some.inj ht
    rw [ofTokens.eq_def]
    simp only [hkind]
  · rename_i hkind
    obtain rfl := Option.some.inj ht
    rw [ofTokens.eq_def]
    simp only [hkind]
  · cases ht

theorem ofTokens_simple {t : Token} {op : UInt8} (ht : simpleOpcode? t.kind = some op)
    (args : List Token) : ofTokens (t :: args) = atEnd args (.simple op) := by
  unfold simpleOpcode? at ht
  split at ht
  · rename_i hkind
    obtain rfl := Option.some.inj ht
    rw [ofTokens.eq_def]
    simp only [hkind]
  · rename_i hkind
    obtain rfl := Option.some.inj ht
    rw [ofTokens.eq_def]
    simp only [hkind]
  · rename_i hkind
    obtain rfl := Option.some.inj ht
    rw [ofTokens.eq_def]
    simp only [hkind]
  · cases ht

/-- **Every statement of the grammar is read**, as the instruction that the grammar gives it. -/
theorem ofTokens_of_reads {tokens : List Token} {i : Instruction} (h : Reads tokens i) :
    ofTokens tokens = .ok i := by
  induction h with
  | byte ht =>
    simp only [ofTokens, ht]
    rfl
  | text ht hlen =>
    simp only [ofTokens, ht, if_neg (Nat.not_lt.mpr hlen)]
    rfl
  | times ht hn hbody horg hfits ih =>
    rw [ofTokens_times ht hn (ne_nil_of_reads hbody), ih]
    exact repeated_of_fits horg hfits
  | origin ht hn =>
    simp only [ofTokens, ht, ofOrg, count_of_isWord hn]
    rfl
  | offset ht hname hamount =>
    simp only [ofTokens, ht, ofOffset, hname, hamount]
    rfl
  | interrupt ht hvector =>
    simp only [ofTokens, ht, ofInt, hvector]
    rfl
  | simple ht => exact ofTokens_simple ht []
  | moveByte ht hr hdst hsrc =>
    simp only [ofTokens, ht, ofMov, hr, hdst, hsrc]
  | moveAddress ht hr hdst hsrc =>
    simp only [ofTokens, ht, ofMov, hr, hdst, hsrc]
  | moveWord ht hr hdst hsrc hlo hhi =>
    have hrange := not_or.mpr ⟨Int32.not_lt.mpr hlo, Int32.not_lt.mpr hhi⟩
    simp only [ofTokens, ht, ofMov, hr, hdst, hsrc, if_neg hrange]
  | orBytes ht hreg hrm =>
    simp only [ofTokens, ht, ofOr, hreg, hrm]
    rfl
  | jumpName ht htarget => simp only [ofTokens_jump ht, ofJump, htarget]
  | jumpAddress ht htarget =>
    obtain ⟨hkind, hlo, hhi, rfl⟩ := htarget
    have hrange := not_or.mpr ⟨Int32.not_lt.mpr hlo, Int32.not_lt.mpr hhi⟩
    simp only [ofTokens_jump ht, ofJump, hkind, if_neg hrange]

/-- The tokens that are read as an instruction are those that the grammar gives it. -/
theorem ofTokens_eq_ok_iff {tokens : List Token} {i : Instruction} :
    ofTokens tokens = .ok i ↔ Reads tokens i :=
  ⟨reads_of_ofTokens, ofTokens_of_reads⟩

theorem isOrigin_of_ofTokens {tokens : List Token} {i : Instruction}
    (hstart : ∀ first ∈ tokens.head?, first.kind ≠ .org) (h : ofTokens tokens = .ok i) :
    i.isOrigin = false := by
  cases reads_of_ofTokens h with
  | origin ht hn => exact absurd ht (hstart _ rfl)
  | _ => rfl

end BootSector.Instruction
