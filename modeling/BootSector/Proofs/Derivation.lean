import BootSector.Proofs.Placement
import BootSector.Proofs.Tokens
import Mathlib.Data.List.Nodup

/-!
# Derivations of statements

`Derivation tokens i` is the type of derivations of the statement `tokens` with the meaning `i`.
Other than in the grammar of the reader (`Reads`), every operand is given by what it means: the
value of a literal as an integer, a register by its place in the names of its class, the size of a
repeated statement as a natural number.

* `Derivation.reads` and `nonempty_of_reads`: the two grammars agree on tokens that are proper;
* `Derivation.eq`: the tokens determine the derivation, since the first token and the kinds of its
  operands determine the rule;
* `extent_append`: the first tokens of a statement tell how long it is, so nothing may follow it.

`recognized_of_proper` puts them together, and adds that a line with a second group never becomes a
statement: folding replaces the first group only, and no rule has a parenthesis.
-/

namespace BootSector

namespace Token

/-- A token that carries what its kind promises: a byte has a value that a byte holds, a register
has a name of its class. -/
structure Proper (t : Token) : Prop where
  byte : t.kind = .byte → 0 ≤ t.value.toInt ∧ t.value.toInt ≤ 255
  register8 : t.kind = .register8 → t.text ∈ Register.byteNames
  register16 : t.kind = .register16 → t.text ∈ Register.wordNames

/-- Does no statement hold a token of this kind? -/
def isForeign : TokenKind → Bool
  | .label | .openParen | .closeParen | .plus | .minus | .multiply => true
  | _ => false

end Token

namespace Register

variable {names : List Bytes} {name : Bytes} {r : UInt8}

theorem indexIn?_eq_some_iff (hnodup : names.Nodup) (hlen : names.length ≤ 256) :
    indexIn? names name = some r ↔ names[r.toNat]? = some name := by
  rw [indexIn?, Option.map_eq_some_iff]
  constructor
  · rintro ⟨n, hn, rfl⟩
    obtain ⟨hlt, heq, -⟩ := List.findIdx?_eq_some_iff_getElem.mp hn
    have hr : (UInt8.ofNat n).toNat = n := UInt8.toNat_ofNat_of_lt' (hlt.trans_le hlen)
    rw [hr, List.getElem?_eq_getElem hlt]
    exact congrArg some (beq_iff_eq.mp heq)
  · intro h
    obtain ⟨hlt, heq⟩ := List.getElem?_eq_some_iff.mp h
    refine ⟨r.toNat, List.findIdx?_eq_some_iff_getElem.mpr ⟨hlt, beq_iff_eq.mpr heq, ?_⟩,
      UInt8.ofNat_toNat⟩
    intro j hj hname
    have hj' : names[j] = names[r.toNat] := (beq_iff_eq.mp hname).trans heq.symm
    have : j = r.toNat := hnodup.getElem_inj_iff.mp hj'
    omega

/-- A name in a list of at most 256 names has an index. -/
theorem exists_index (hlen : names.length ≤ 256) (h : name ∈ names) :
    ∃ r : UInt8, names[r.toNat]? = some name := by
  obtain ⟨n, hlt, rfl⟩ := List.getElem_of_mem h
  have hr : (UInt8.ofNat n).toNat = n := UInt8.toNat_ofNat_of_lt' (hlt.trans_le hlen)
  exact ⟨UInt8.ofNat n, by rw [hr, List.getElem?_eq_getElem hlt]⟩

end Register

namespace Instruction

variable {t : Token} {tokens : List Token} {i j : Instruction}

/-! ### Operands -/

/-- The token is a byte literal with the value `v`. -/
def IsByte (t : Token) (v : UInt8) : Prop := t.kind = .byte ∧ t.value.toInt = v.toNat

/-- The token is a number from `low` to 65535, and `w` is its value modulo 2¹⁶. -/
def IsNumber (low : Int) (t : Token) (w : UInt16) : Prop :=
  t.kind = .number ∧ low ≤ t.value.toInt ∧ t.value.toInt ≤ 65535 ∧
    (w.toNat : Int) = t.value.toInt % 65536

/-- The token is a register of the given kind, with the index `r` among the names of its class. -/
def IsRegister (kind : TokenKind) (names : List Bytes) (t : Token) (r : UInt8) : Prop :=
  t.kind = kind ∧ names[r.toNat]? = some t.text

theorem toInt_eq_bmod (x : Int32) : x.toInt = (x.toUInt32.toNat : Int).bmod 4294967296 := by
  rw [← Int32.toInt_toBitVec, BitVec.toInt_eq_toNat_bmod]
  rfl

theorem isByte_iff {v : UInt8} (hproper : t.Proper) :
    IsByte t v ↔ t.kind = .byte ∧ v = lowByte t := by
  refine and_congr_right fun hkind => ?_
  obtain ⟨hlow, hhigh⟩ := hproper.byte hkind
  have hvalue := toInt_eq_bmod t.value
  have hmod : (lowByte t).toNat = t.value.toUInt32.toNat % 256 := UInt32.toNat_toUInt8 _
  have hlt := UInt32.toNat_lt t.value.toUInt32
  rw [Int.bmod_def] at hvalue
  rw [← UInt8.toNat_inj, hmod]
  split at hvalue <;> omega

theorem isNumber_iff (low : Int32) {w : UInt16} :
    IsNumber low.toInt t w ↔
      t.kind = .number ∧ low ≤ t.value ∧ t.value ≤ 65535 ∧ w = t.value.toUInt32.toUInt16 := by
  have hmod : (t.value.toUInt32.toUInt16.toNat : Int) = t.value.toInt % 65536 := by
    have hvalue := toInt_eq_bmod t.value
    rw [UInt32.toNat_toUInt16, hvalue, Int.bmod_def]
    split <;> omega
  have hmax : (65535 : Int32).toInt = 65535 := rfl
  rw [IsNumber, Int32.le_iff_toInt_le, Int32.le_iff_toInt_le, hmax, ← hmod, Int.natCast_inj,
    UInt16.toNat_inj]

theorem isWord_iff {w : UInt16} : IsWord t w ↔ IsNumber 0 t w :=
  (isNumber_iff 0).symm

theorem isRegister8_iff {r : UInt8} : IsRegister .register8 Register.byteNames t r ↔
    t.kind = .register8 ∧ t.register? = some r := by
  refine and_congr_right fun hkind => ?_
  simp only [Token.register?, hkind]
  exact (Register.indexIn?_eq_some_iff (by decide) (by decide)).symm

theorem isRegister16_iff {r : UInt8} : IsRegister .register16 Register.wordNames t r ↔
    t.kind = .register16 ∧ t.register? = some r := by
  refine and_congr_right fun hkind => ?_
  simp only [Token.register?, hkind]
  exact (Register.indexIn?_eq_some_iff (by decide) (by decide)).symm

/-- A proper byte register has an index. -/
theorem isRegister8_getD (hproper : t.Proper) (hkind : t.kind = .register8) :
    IsRegister .register8 Register.byteNames t (t.register?.getD 0) := by
  obtain ⟨r, hr⟩ := Register.exists_index (by decide) (hproper.register8 hkind)
  have hreg : t.register? = some r := (isRegister8_iff.mp ⟨hkind, hr⟩).2
  rw [hreg]
  exact ⟨hkind, hr⟩

/-! ### The grammar -/

/-- **A derivation of a statement** from its tokens, with the instruction that it denotes. -/
inductive Derivation : List Token → Instruction → Type where
  | byte {t : Token} {v : UInt8} (ht : IsByte t v) : Derivation [t] (.byte v)
  | text {t : Token} (ht : t.kind = .string) (hlen : t.text.length ≤ 65535) :
    Derivation [t] (.text t.text)
  | times {t n : Token} {count : UInt16} {rest : List Token} {body : Instruction}
    (ht : t.kind = .times) (hn : IsNumber 0 n count) (statement : Derivation rest body)
    (horg : body.isOrigin = false) (hfits : count.toNat * body.size ≤ 65535) :
    Derivation (t :: n :: rest) (.times count body)
  | origin {t n : Token} {addr : UInt16} (ht : t.kind = .org) (hn : IsNumber 0 n addr) :
    Derivation [t, n] (.origin addr)
  | offset {t name amount : Token} (ht : t.kind = .offset) (hname : name.kind = .reference)
    (hamount : amount.kind = .number) :
    Derivation [t, name, amount] (.offset name.text amount.value)
  | interrupt {t n : Token} {vector : UInt8} (ht : t.kind = .int) (hn : IsByte n vector) :
    Derivation [t, n] (.interrupt vector)
  | simple {t : Token} {op : UInt8} (ht : simpleOpcode? t.kind = some op) :
    Derivation [t] (.simple op)
  | moveByte {t dst src : Token} {r v : UInt8} (ht : t.kind = .mov)
    (hdst : IsRegister .register8 Register.byteNames dst r) (hsrc : IsByte src v) :
    Derivation [t, dst, src] (.moveByte r v)
  | moveAddress {t dst src : Token} {r : UInt8} (ht : t.kind = .mov)
    (hdst : IsRegister .register16 Register.wordNames dst r) (hsrc : src.kind = .reference) :
    Derivation [t, dst, src] (.moveAddress r src.text)
  | moveWord {t dst src : Token} {r : UInt8} {w : UInt16} (ht : t.kind = .mov)
    (hdst : IsRegister .register16 Register.wordNames dst r) (hsrc : IsNumber (-32768) src w) :
    Derivation [t, dst, src] (.moveWord r w)
  | orBytes {t a b : Token} {reg rm : UInt8} (ht : t.kind = .or)
    (hreg : IsRegister .register8 Register.byteNames a reg)
    (hrm : IsRegister .register8 Register.byteNames b rm) :
    Derivation [t, a, b] (.orBytes reg rm)
  | jumpName {t name : Token} {op : UInt8} {target : JumpTarget}
    (ht : jumpOpcode? t.kind = some op) (hname : name.kind = .reference)
    (htarget : target = referenceTarget name.text) :
    Derivation [t, name] (.jump op t.position target)
  | jumpAddress {t n : Token} {op : UInt8} {addr : UInt16} (ht : jumpOpcode? t.kind = some op)
    (hn : IsNumber 0 n addr) : Derivation [t, n] (.jump op t.position (.address addr))

/-- Whatever has a derivation is read as the instruction that the derivation denotes. -/
theorem Derivation.reads (d : Derivation tokens i) (hproper : ∀ t ∈ tokens, t.Proper) :
    Reads tokens i := by
  induction d with
  | byte ht =>
    obtain ⟨hkind, rfl⟩ := (isByte_iff (hproper _ (by simp))).mp ht
    exact .byte hkind
  | text ht hlen => exact .text ht hlen
  | times ht hn statement horg hfits ih =>
    have hbody := ih fun t ht => hproper t (by simp [ht])
    have hlength := toNat_length_of_le (size_le_of_reads hbody)
    exact .times ht (isWord_iff.mpr hn) hbody horg (by rwa [hlength, Nat.mul_comm])
  | origin ht hn => exact .origin ht (isWord_iff.mpr hn)
  | offset ht hname hamount => exact .offset ht hname hamount
  | interrupt ht hn =>
    obtain ⟨hkind, rfl⟩ := (isByte_iff (hproper _ (by simp))).mp hn
    exact .interrupt ht hkind
  | simple ht => exact .simple ht
  | moveByte ht hdst hsrc =>
    obtain ⟨hkind, rfl⟩ := (isByte_iff (hproper _ (by simp))).mp hsrc
    have hreg := isRegister8_iff.mp hdst
    exact .moveByte ht hreg.2 hreg.1 hkind
  | moveAddress ht hdst hsrc =>
    have hreg := isRegister16_iff.mp hdst
    exact .moveAddress ht hreg.2 hreg.1 hsrc
  | moveWord ht hdst hsrc =>
    have hreg := isRegister16_iff.mp hdst
    obtain ⟨hkind, hlo, hhi, rfl⟩ := (isNumber_iff (-32768)).mp hsrc
    exact .moveWord ht hreg.2 hreg.1 hkind hlo hhi
  | orBytes ht ha hb =>
    have hreg := isRegister8_iff.mp ha
    have hrm := isRegister8_iff.mp hb
    have hor := Reads.orBytes ht hreg.1 hrm.1
    rwa [hreg.2, hrm.2] at hor
  | jumpName ht hname htarget => exact htarget ▸ .jumpName ht hname
  | jumpAddress ht hn => exact .jumpAddress ht (isWord_iff.mpr hn)

/-- Whatever is read has a derivation. -/
theorem nonempty_of_reads (h : Reads tokens i) (hproper : ∀ t ∈ tokens, t.Proper) :
    Nonempty (Derivation tokens i) := by
  induction h with
  | byte ht => exact ⟨.byte ((isByte_iff (hproper _ (by simp))).mpr ⟨ht, rfl⟩)⟩
  | text ht hlen => exact ⟨.text ht hlen⟩
  | times ht hn hbody horg hfits ih =>
    obtain ⟨statement⟩ := ih fun t ht => hproper t (by simp [ht])
    rw [toNat_length_of_le (size_le_of_reads hbody), Nat.mul_comm] at hfits
    exact ⟨.times ht (isWord_iff.mp hn) statement horg hfits⟩
  | origin ht hn => exact ⟨.origin ht (isWord_iff.mp hn)⟩
  | offset ht hname hamount => exact ⟨.offset ht hname hamount⟩
  | interrupt ht hvector =>
    exact ⟨.interrupt ht ((isByte_iff (hproper _ (by simp))).mpr ⟨hvector, rfl⟩)⟩
  | simple ht => exact ⟨.simple ht⟩
  | moveByte ht hr hdst hsrc =>
    have hbyte := (isByte_iff (hproper _ (by simp))).mpr ⟨hsrc, rfl⟩
    exact ⟨.moveByte ht (isRegister8_iff.mpr ⟨hdst, hr⟩) hbyte⟩
  | moveAddress ht hr hdst hsrc =>
    exact ⟨.moveAddress ht (isRegister16_iff.mpr ⟨hdst, hr⟩) hsrc⟩
  | moveWord ht hr hdst hsrc hlo hhi =>
    have hword := (isNumber_iff (-32768)).mpr ⟨hsrc, hlo, hhi, rfl⟩
    exact ⟨.moveWord ht (isRegister16_iff.mpr ⟨hdst, hr⟩) hword⟩
  | orBytes ht hreg hrm =>
    exact ⟨.orBytes ht (isRegister8_getD (hproper _ (by simp)) hreg)
      (isRegister8_getD (hproper _ (by simp)) hrm)⟩
  | jumpName ht htarget => exact ⟨.jumpName ht htarget rfl⟩
  | jumpAddress ht htarget => exact ⟨.jumpAddress ht (isWord_iff.mp htarget)⟩

theorem ofTokens_eq_ok_iff_derivation (hproper : ∀ t ∈ tokens, t.Proper) :
    ofTokens tokens = .ok i ↔ Nonempty (Derivation tokens i) := by
  rw [ofTokens_eq_ok_iff]
  exact ⟨fun h => nonempty_of_reads h hproper, fun ⟨d⟩ => d.reads hproper⟩

/-! ### One derivation at most -/

/-- Two derivations of one statement with one meaning are the same. -/
theorem Derivation.eq (d e : Derivation tokens i) : d = e := by
  induction d with
  | times ht hn statement horg hfits ih =>
    cases e with
    | times ht' hn' statement' horg' hfits' => rw [ih statement']
  | jumpName ht hname htarget =>
    cases e with
    | jumpName => rfl
    | jumpAddress ht' hn =>
      -- a reference is no number
      have hkind := hname.symm.trans hn.1
      cases hkind
  | jumpAddress ht hn =>
    cases e with
    | jumpName ht' hname htarget =>
      have hkind := hname.symm.trans hn.1
      cases hkind
    | jumpAddress => rfl
  | _ => cases e; rfl

/-! ### The end of a statement -/

/-- How many tokens a statement has that starts with the given ones. -/
def extent : List Token → Nat
  | [] => 0
  | t :: args =>
    match t.kind with
    | .times =>
      match args with
      | [] => 1
      | _ :: body => extent body + 2
    | .offset | .mov | .or => 3
    | .org | .int | .jz | .jmp => 2
    | _ => 1

/-- The first tokens of a statement tell how long it is. -/
theorem extent_append (h : Reads tokens i) (rest : List Token) :
    extent (tokens ++ rest) = tokens.length := by
  induction h with
  | times ht hn hbody horg hfits ih => simp [extent, ht, ih]
  | simple ht =>
    unfold simpleOpcode? at ht
    rw [List.singleton_append, extent.eq_def]
    split at ht <;> simp_all
  | jumpName ht htarget | jumpAddress ht htarget =>
    rcases kind_of_jumpOpcode? ht with hkind | hkind <;> simp [extent, hkind]
  | byte ht | text ht =>
    rw [List.singleton_append, extent.eq_def]
    simp [ht]
  | origin ht | offset ht | interrupt ht | moveByte ht | moveAddress ht | moveWord ht
  | orBytes ht => simp [extent, ht]

/-- Nothing follows a statement. -/
theorem eq_nil_of_reads_append {rest : List Token} (h : Reads tokens i)
    (h' : Reads (tokens ++ rest) j) : rest = [] := by
  have hlength : (tokens ++ rest).length = tokens.length := by
    rw [← extent_append h rest, ← extent_append h' [], List.append_nil]
  rw [List.length_append] at hlength
  exact List.length_eq_zero_iff.mp (by omega)

/-- No statement holds a label definition, a parenthesis or an operator. -/
theorem isForeign_of_reads (h : Reads tokens i) : ∀ t ∈ tokens, Token.isForeign t.kind = false := by
  induction h with
  | times ht hn hbody horg hfits ih =>
    intro t hmem
    rcases List.mem_cons.mp hmem with rfl | hmem
    · simp [Token.isForeign, ht]
    · rcases List.mem_cons.mp hmem with rfl | hmem
      · simp [Token.isForeign, hn.1]
      · exact ih t hmem
  | simple ht =>
    unfold simpleOpcode? at ht
    split at ht <;> simp_all [Token.isForeign]
  | jumpName ht htarget =>
    rcases kind_of_jumpOpcode? ht with hkind | hkind <;> simp [Token.isForeign, hkind, htarget]
  | jumpAddress ht htarget =>
    rcases kind_of_jumpOpcode? ht with hkind | hkind <;> simp [Token.isForeign, hkind, htarget.1]
  | origin ht hn => simp [Token.isForeign, ht, hn.1]
  | _ => simp_all [Token.isForeign]

/-- **The reader accepts exactly the statements with a derivation.** -/
structure Recognized (tokens : List Token) : Prop where
  accepted (i : Instruction) : ofTokens tokens = .ok i ↔ Nonempty (Derivation tokens i)
  unique : Subsingleton ((i : Instruction) × Derivation tokens i)
  refused : (∃ fault, ofTokens tokens = .error fault) ↔
    IsEmpty ((i : Instruction) × Derivation tokens i)
  /-- No token of an accepted list is a label definition, a parenthesis or an operator. -/
  plain (i : Instruction) : ofTokens tokens = .ok i →
    ∀ t ∈ tokens, Token.isForeign t.kind = false
  /-- An accepted list is refused with any tokens behind it. -/
  whole (i : Instruction) : ofTokens tokens = .ok i →
    ∀ rest, rest ≠ [] → ∃ fault, ofTokens (tokens ++ rest) = .error fault

theorem recognized_of_proper (hproper : ∀ t ∈ tokens, t.Proper) : Recognized tokens where
  accepted i := ofTokens_eq_ok_iff_derivation hproper
  unique := by
    refine ⟨fun ⟨i, d⟩ ⟨j, e⟩ => ?_⟩
    have hi : ofTokens tokens = .ok i := (ofTokens_eq_ok_iff_derivation hproper).mpr ⟨d⟩
    have hj : ofTokens tokens = .ok j := (ofTokens_eq_ok_iff_derivation hproper).mpr ⟨e⟩
    obtain rfl : i = j := Except.ok.inj (hi.symm.trans hj)
    rw [d.eq e]
  refused := by
    constructor
    · rintro ⟨fault, hfault⟩
      refine ⟨fun ⟨i, d⟩ => ?_⟩
      have hi := (ofTokens_eq_ok_iff_derivation hproper).mpr ⟨d⟩
      cases hfault.symm.trans hi
    · intro hempty
      cases htokens : ofTokens tokens with
      | error fault => exact ⟨fault, rfl⟩
      | ok i =>
        obtain ⟨d⟩ := (ofTokens_eq_ok_iff_derivation hproper).mp htokens
        exact (hempty.false ⟨i, d⟩).elim
  plain i hi := isForeign_of_reads (reads_of_ofTokens hi)
  whole i hi rest hrest := by
    cases hmore : ofTokens (tokens ++ rest) with
    | error fault => exact ⟨fault, rfl⟩
    | ok j =>
      have := eq_nil_of_reads_append (reads_of_ofTokens hi) (reads_of_ofTokens hmore)
      exact absurd this hrest

end Instruction

/-! ### A second group -/

namespace Token

variable {tokens : List Token} {t : Token}

/-- The line holds an opening parenthesis behind its first group. -/
def HasSecondGroup (loc : Location) (line : Bytes) : Prop :=
  ∃ scanned g, scan loc (Text.Utf8.decode line) = .ok scanned ∧
    firstGroup scanned = .ok (some g) ∧ ∃ t ∈ g.after, t.kind = .openParen

/-- Folding keeps what stands behind the first group. -/
theorem mem_fold_of_mem_after {folded : List Token} {g : Grouped}
    (hg : firstGroup tokens = .ok (some g)) (h : fold tokens = .ok folded) (ht : t ∈ g.after) :
    t ∈ folded := by
  simp only [fold, hg] at h
  split at h
  · cases h
  · split at h
    · cases h
    · obtain rfl := Except.ok.inj h
      simp [ht]

theorem mem_behindLabel (ht : t ∈ tokens) (hkind : t.kind ≠ .label) : t ∈ behindLabel tokens := by
  cases tokens with
  | nil => exact ht
  | cons first rest =>
    by_cases hfirst : first.kind = .label
    · rw [behindLabel, if_pos hfirst]
      rcases List.mem_cons.mp ht with rfl | ht
      · exact absurd hfirst hkind
      · exact ht
    · rwa [behindLabel, if_neg hfirst]

/-- The second group of a line is still there when its tokens are read. -/
theorem HasSecondGroup.exists_mem {loc : Location} {line : Bytes} (h : HasSecondGroup loc line)
    (htokens : ofLine loc line = .ok tokens) : ∃ t ∈ behindLabel tokens, t.kind = .openParen := by
  obtain ⟨scanned, g, hscan, hg, t, ht, hkind⟩ := h
  simp only [ofLine, hscan] at htokens
  have hne : t.kind ≠ .label := by simp [hkind]
  exact ⟨t, mem_behindLabel (mem_fold_of_mem_after hg htokens ht) hne, hkind⟩

end Token

theorem Sweep.not_hasSecondGroup_of_advances {verbose : Bool} {s s' : Sweep} {number : Nat}
    {line : Bytes} (h : s.Advances verbose number line s') :
    ¬ Token.HasSecondGroup s.location line := by
  intro hsecond
  have hforeign : Token.isForeign .openParen ≠ false := by decide
  cases h with
  | bare htokens hlabel hrest =>
    obtain ⟨t, ht, -⟩ := hsecond.exists_mem htokens
    rw [hrest] at ht
    cases ht
  | org htokens hlabel hi | place htokens hlabel hi =>
    obtain ⟨t, ht, hkind⟩ := hsecond.exists_mem htokens
    have hplain := Instruction.isForeign_of_reads (Instruction.reads_of_ofTokens hi) t ht
    rw [hkind] at hplain
    exact hforeign hplain

/-- **Exactly the statements of the grammar are accepted.**  A list of proper tokens is read as an
instruction if and only if it has a derivation with that meaning; it has one derivation at most,
holds no label definition, parenthesis or operator, and nothing may follow it.  So a source with a
line that holds a second group does not assemble. -/
theorem statement_grammar_exact :
    (∀ tokens : List Token, (∀ t ∈ tokens, t.Proper) → Instruction.Recognized tokens) ∧
    ∀ (a : Assembler) (source : Bytes) (n : Nat) (line : Bytes),
      (Reading.ofBytes source).lines[n]? = some line →
      (∀ s, a.after ((Reading.ofBytes source).lines.take n) = some s →
        Token.HasSecondGroup s.location line) →
      ∃ e, a.assemble source = .error e := by
  refine ⟨fun tokens hproper => Instruction.recognized_of_proper hproper, ?_⟩
  intro a source n line hline hsecond
  cases hcode : a.assemble source with
  | error e => exact ⟨e, rfl⟩
  | ok code =>
    obtain ⟨p, hparse, -⟩ := Assembler.assemble_eq_ok_iff.mp hcode
    obtain ⟨-, s', hafter, -⟩ := Assembler.parse_eq_ok_iff.mp hparse
    obtain ⟨s₁, hs₁⟩ := Assembler.exists_after_take (n + 1) hafter
    obtain ⟨s, hs, hadv⟩ := Assembler.advances_of_after_take hs₁ hline
    exact absurd (hsecond s hs) (Sweep.not_hasSecondGroup_of_advances hadv)

/-- A repetition in a repetition has one derivation, and `mov ax (1+2) (3)` does not assemble. -/
theorem statement_grammar_exact_nested :
    let al : Token := { kind := .register8, text := Bytes.ofString "al" }
    let tokens := [Token.ofKind .times, .number 2, .ofKind .times, .number 3, .ofKind .mov, al,
      .byte 0x41]
    Instruction.ofTokens tokens = .ok (.times 2 (.times 3 (.moveByte 0 0x41))) ∧
    Subsingleton ((i : Instruction) × Instruction.Derivation tokens i) ∧
    ∃ e, ({ origin := 0x7C00 } : Assembler).assemble (Bytes.ofString "mov ax (1+2) (3)") =
      .error e := by
  intro al tokens
  have hproper : ∀ t ∈ tokens, t.Proper := by
    simp only [tokens, List.forall_mem_cons, List.not_mem_nil, false_implies, implies_true]
    refine ⟨?_, ?_, ?_, ?_, ?_, ?_, ?_, trivial⟩ <;>
      exact ⟨by decide, by decide, by decide⟩
  have hcopies : Instruction.Derivation tokens (.times 2 (.times 3 (.moveByte 0 0x41))) := by
    refine .times rfl ⟨rfl, by decide, by decide, by decide⟩ ?_ rfl (by decide)
    refine .times rfl ⟨rfl, by decide, by decide, by decide⟩ ?_ rfl (by decide)
    exact .moveByte rfl ⟨rfl, rfl⟩ ⟨rfl, rfl⟩
  have hgroups (loc : Location) :
      Token.HasSecondGroup loc (Bytes.ofString "mov ax (1+2) (3)") := by
    let ax : Token := { kind := .register16, text := Bytes.ofString "ax" }
    have hscan : Token.scan loc (Text.Utf8.decode (Bytes.ofString "mov ax (1+2) (3)")) =
        .ok [.ofKind .mov, ax, .ofKind .openParen, .number 1, .ofKind .plus, .number 2,
          .ofKind .closeParen, .ofKind .openParen, .number 3, .ofKind .closeParen] := rfl
    exact ⟨_, _, hscan, rfl, .ofKind .openParen, by decide, rfl⟩
  obtain ⟨hrecognized, hsecond⟩ := statement_grammar_exact
  have htokens := hrecognized tokens hproper
  exact ⟨(htokens.accepted _).mpr ⟨hcopies⟩, htokens.unique,
    hsecond _ _ 0 (Bytes.ofString "mov ax (1+2) (3)") rfl fun s _ => hgroups s.location⟩

end BootSector
