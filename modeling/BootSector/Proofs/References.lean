import BootSector.Proofs.Jump
import BootSector.Proofs.Layout

/-!
# Undefined references

A statement refers to at most one name, under any number of repetitions: `reference?` finds it.  The
second sweep refuses a statement for two reasons only, a name that the table does not have and, in
strict mode, a jump that is out of range (`encode_eq_error_iff`).  A repetition changes nothing here,
not even one of zero copies, since its body is encoded all the same.

A jump with an empty name would count as a jump to address zero.  So the names that an instruction
refers to have to be those on its line: `references_of_reads` finds the same names in both, as no
reference is empty (`text_ne_nil_of_ofLine`).
-/

namespace BootSector

/-! ### References on a line -/

namespace Token

variable {loc : Location}

/-- The names that some tokens refer to, in order. -/
def references (tokens : List Token) : List Bytes :=
  (tokens.filter fun t => t.kind = .reference).map fun t => t.text

theorem references_cons_of_ne {t : Token} (h : t.kind ≠ .reference) (tokens : List Token) :
    references (t :: tokens) = references tokens := by
  rw [references, List.filter_cons_of_neg (by simpa using h), references]

theorem references_cons_of_eq {t : Token} (h : t.kind = .reference) (tokens : List Token) :
    references (t :: tokens) = t.text :: references tokens := by
  rw [references, List.filter_cons_of_pos (by simpa using h), List.map_cons, references]

theorem mem_references_iff {tokens : List Token} {name : Bytes} :
    name ∈ references tokens ↔ ∃ t ∈ tokens, t.kind = .reference ∧ t.text = name := by
  simp only [references, List.mem_map, List.mem_filter, decide_eq_true_eq, and_assoc]

theorem kind_ne_reference_of_mnemonic? {name : Bytes} {kind : TokenKind}
    (h : mnemonic? name = some kind) : kind ≠ .reference := by
  obtain ⟨entry, hentry, rfl⟩ := Option.map_eq_some_iff.mp h
  have hall : ∀ entry ∈ mnemonics, entry.2 ≠ .reference := by decide
  exact hall entry (List.mem_of_find?_eq_some hentry)

theorem ofChars_ne_nil {word : List Char} (h : word ≠ []) : Bytes.ofChars word ≠ [] := by
  cases word with
  | nil => exact absurd rfl h
  | cons c rest =>
    rw [Bytes.ofChars_cons]
    intro hnil
    have hc : String.utf8EncodeChar c = [] := (List.append_eq_nil_iff.mp hnil).1
    have hlength := String.length_utf8EncodeChar c
    have hpos := Char.utf8Size_pos c
    rw [hc, List.length_nil] at hlength
    omega

theorem ofChars_ne_nil_of_isName {word : List Char} (h : IsName word) :
    Bytes.ofChars word ≠ [] := by
  apply ofChars_ne_nil
  rintro rfl
  obtain ⟨c, hc, -⟩ := h.1
  cases hc

/-- A name that is a reference keeps its characters. -/
theorem text_of_ofName {word : List Char} (h : (ofName loc word).kind = .reference) :
    (ofName loc word).text = Bytes.ofChars word := by
  revert h
  dsimp only [ofName]
  split
  · rename_i kind hkind
    have hne := kind_ne_reference_of_mnemonic? hkind
    split_ifs <;> exact fun h => absurd h hne
  · unfold ofRegister?
    split_ifs
    · exact fun h => nomatch h
    · exact fun h => nomatch h
    · exact fun _ => rfl

/-- **No reference of a line is empty.** -/
theorem text_ne_nil_of_ofLine {line : Bytes} {tokens : List Token} {t : Token}
    (h : ofLine loc line = .ok tokens) (ht : t ∈ tokens) (hkind : t.kind = .reference) :
    t.text ≠ [] := by
  cases made_of_ofLine h ht with
  | string text | number v | label hname => cases hkind
  | literal hliteral =>
    have hvalue := isValue_of_ofLiteral hliteral
    rw [isValue, hkind] at hvalue
    cases hvalue
  | punctuation hpunctuation =>
    unfold punctuation? at hpunctuation
    split at hpunctuation <;> cases hpunctuation <;> cases hkind
  | @name word hname =>
    rw [text_of_ofName hkind]
    exact ofChars_ne_nil_of_isName hname

end Token

/-! ### References of an instruction -/

namespace Instruction

variable {strict : Bool} {labels : LabelTable} {i : Instruction} {fault : Fault}

/-- **The name that an instruction refers to**, at any depth of repetition. -/
def reference? : Instruction → Option Bytes
  | times _ body => body.reference?
  | offset label _ => some label
  | moveAddress _ label => some label
  | jump _ _ (.label name) => some name
  | _ => none

/-- The position and the target of the jump in an instruction, at any depth of repetition. -/
def jump? : Instruction → Option (UInt16 × JumpTarget)
  | times _ body => body.jump?
  | jump _ position target => some (position, target)
  | _ => none

/-- Is there an instruction below all repetitions? -/
def isPresent : Instruction → Bool
  | times _ body => body.isPresent
  | absent => false
  | _ => true

/-- The instruction refers to a name that the table does not have. -/
def Dangles (labels : LabelTable) (i : Instruction) : Prop :=
  ∃ name, i.reference? = some name ∧ labels.find? name = none

/-- The jump in the instruction has a target that no signed byte takes it to. -/
def Overshoots (labels : LabelTable) (i : Instruction) : Prop :=
  ∃ position target addr, i.jump? = some (position, target) ∧ JumpsTo labels addr target ∧
    ¬ ∃ d, Lands position addr d

/-- **What the second sweep refuses an instruction for**: a name that the table does not have or, in
strict mode, a jump that is out of range. -/
def Refuses (strict : Bool) (labels : LabelTable) (i : Instruction) (fault : Fault) : Prop :=
  (∃ name, i.reference? = some name ∧ labels.find? name = none ∧ fault = .labelMissing name) ∨
    (strict = true ∧ i.Overshoots labels ∧ fault = .displacementOutOfRange)

theorem exists_refuses_iff :
    (∃ fault, i.Refuses strict labels fault) ↔
      i.Dangles labels ∨ strict = true ∧ i.Overshoots labels := by
  constructor
  · rintro ⟨fault, ⟨name, href, hname, -⟩ | ⟨hstrict, hover, -⟩⟩
    · exact .inl ⟨name, href, hname⟩
    · exact .inr ⟨hstrict, hover⟩
  · rintro (⟨name, href, hname⟩ | ⟨hstrict, hover⟩)
    · exact ⟨_, .inl ⟨name, href, hname, rfl⟩⟩
    · exact ⟨_, .inr ⟨hstrict, hover, rfl⟩⟩

theorem resolve_eq_error_iff {name : Bytes} :
    labels.resolve name = .error fault ↔ labels.find? name = none ∧ fault = .labelMissing name := by
  unfold LabelTable.resolve
  cases labels.find? name <;> simp [eq_comm]

/-- An instruction without a jump is refused for its name only. -/
theorem refuses_iff_of_jump?_eq_none (h : i.jump? = none) :
    i.Refuses strict labels fault ↔
      ∃ name, i.reference? = some name ∧ labels.find? name = none ∧ fault = .labelMissing name := by
  refine ⟨fun hrefuses => hrefuses.resolve_right ?_, .inl⟩
  rintro ⟨-, ⟨position, target, addr, hjump, -⟩, -⟩
  rw [h] at hjump
  cases hjump

/-- A name stands in an instruction that takes an address from the table. -/
theorem refuses_iff_of_reference {name : Bytes} (href : i.reference? = some name)
    (hjump : i.jump? = none) :
    i.Refuses strict labels fault ↔ labels.resolve name = .error fault := by
  rw [refuses_iff_of_jump?_eq_none hjump, href, resolve_eq_error_iff]
  constructor
  · rintro ⟨name', hname', hnone, rfl⟩
    obtain rfl := Option.some.inj hname'
    exact ⟨hnone, rfl⟩
  · rintro ⟨hnone, rfl⟩
    exact ⟨name, rfl, hnone, rfl⟩

/-- Every target stands for an address, or is a name that the table does not have. -/
theorem jumpsTo_or_missing (labels : LabelTable) (target : JumpTarget) :
    (∃ addr, JumpsTo labels addr target) ∨
      ∃ name, target = .label name ∧ labels.find? name = none := by
  cases target with
  | address addr => exact .inl ⟨addr, rfl⟩
  | label name =>
    cases hfind : labels.find? name with
    | some addr => exact .inl ⟨addr, hfind⟩
    | none => exact .inr ⟨name, rfl, hfind⟩

theorem jumpsTo_unique {addr addr' : UInt16} {target : JumpTarget} (h : JumpsTo labels addr target)
    (h' : JumpsTo labels addr' target) : addr = addr' := by
  cases target with
  | address addr₀ => exact h.symm.trans h'
  | label name => exact Option.some.inj (h.symm.trans h')

/-- A jump that is encoded has a target, in either mode. -/
theorem exists_jumpsTo_of_encode {opcode : UInt8} {position : UInt16} {target : JumpTarget}
    {code : Bytes} (h : (jump opcode position target).encode strict labels = .ok code) :
    ∃ addr, JumpsTo labels addr target ∧ code = [opcode, displacement position addr] ∧
      (strict = true → inRange position addr = true) := by
  rcases jumpsTo_or_missing labels target with ⟨addr, haddr⟩ | ⟨name, rfl, hnone⟩
  · rw [encode_jump haddr] at h
    split_ifs at h with hrange
    refine ⟨addr, haddr, (Except.ok.inj h).symm, fun hstrict => ?_⟩
    simpa [hstrict] using hrange
  · simp only [encode, JumpTarget.resolve, LabelTable.resolve, hnone] at h
    cases h

theorem encode_jump_eq_error_iff {opcode : UInt8} {position : UInt16} {target : JumpTarget} :
    (jump opcode position target).encode strict labels = .error fault ↔
      (jump opcode position target).Refuses strict labels fault := by
  rcases jumpsTo_or_missing labels target with ⟨addr, haddr⟩ | ⟨name, rfl, hnone⟩
  · -- the target stands for an address, and so only the range is in question
    have hover : (jump opcode position target).Overshoots labels ↔ ¬ ∃ d, Lands position addr d := by
      constructor
      · rintro ⟨position', target', addr', hjump, haddr', hfar⟩
        obtain ⟨rfl, rfl⟩ := Prod.mk.inj (Option.some.inj hjump)
        rw [jumpsTo_unique haddr haddr']
        exact hfar
      · intro hfar
        exact ⟨position, target, addr, rfl, haddr, hfar⟩
    have hmissing : ¬ ∃ name, (jump opcode position target).reference? = some name ∧
        labels.find? name = none ∧ fault = .labelMissing name := by
      rintro ⟨name, href, hnone, -⟩
      cases target with
      | address addr => cases href
      | label name' =>
        obtain rfl := Option.some.inj href
        have hfind : labels.find? name' = some addr := haddr
        rw [hnone] at hfind
        cases hfind
    rw [encode_jump haddr, Refuses, hover, ← inRange_iff, or_iff_right hmissing]
    cases strict <;> cases inRange position addr <;> simp [eq_comm]
  · -- the name is missing, and so there is no distance
    have hencode : (jump opcode position (.label name)).encode strict labels =
        .error (.labelMissing name) := by
      simp only [encode, JumpTarget.resolve, LabelTable.resolve, hnone]
    rw [hencode]
    constructor
    · intro h
      exact .inl ⟨name, rfl, hnone, (Except.error.inj h).symm⟩
    · rintro (⟨name', href, -, rfl⟩ | ⟨-, ⟨position', target, addr, hjump, haddr, -⟩, -⟩)
      · obtain rfl := Option.some.inj href
        rfl
      · obtain ⟨-, rfl⟩ := Prod.mk.inj (Option.some.inj hjump)
        have hfind : labels.find? name = some addr := haddr
        rw [hnone] at hfind
        cases hfind

/-- **An instruction is refused for a missing name or, in strict mode, for its range**, and for
nothing else. -/
theorem encode_eq_error_iff (hpresent : i.isPresent = true) :
    i.encode strict labels = .error fault ↔ i.Refuses strict labels fault := by
  induction i with
  | times count body ih =>
    -- the body is encoded whatever the count, and a repetition refers to what its body refers to
    have hbody : (times count body).Refuses strict labels fault ↔
        body.Refuses strict labels fault := Iff.rfl
    rw [hbody, ← ih hpresent, encode]
    cases body.encode strict labels <;> simp
  | offset label amount =>
    rw [refuses_iff_of_reference (i := offset label amount) rfl rfl, encode]
    cases labels.resolve label <;> simp
  | moveAddress register label =>
    rw [refuses_iff_of_reference (i := moveAddress register label) rfl rfl, encode]
    cases labels.resolve label <;> simp
  | jump opcode position target => exact encode_jump_eq_error_iff
  | absent => cases hpresent
  | byte | text | origin | moveByte | moveWord | orBytes | simple | interrupt =>
    rw [refuses_iff_of_jump?_eq_none rfl, encode]
    simp [reference?]

/-- The bytes of an instruction depend on the address of the name that it refers to, and on no other
entry of the table. -/
theorem encode_congr {labels' : LabelTable}
    (h : ∀ name, i.reference? = some name → labels.find? name = labels'.find? name) :
    i.encode strict labels = i.encode strict labels' := by
  have hresolve {name : Bytes} (hname : labels.find? name = labels'.find? name) :
      labels.resolve name = labels'.resolve name := by
    rw [LabelTable.resolve, LabelTable.resolve, hname]
  induction i with
  | times count body ih => rw [encode, encode, ih h]
  | offset label amount => rw [encode, encode, hresolve (h label rfl)]
  | moveAddress register label => rw [encode, encode, hresolve (h label rfl)]
  | jump opcode position target =>
    have htarget : target.resolve labels = target.resolve labels' := by
      cases target with
      | address addr => rfl
      | label name => exact hresolve (h name rfl)
    rw [encode, encode, htarget]
  | _ => rfl

/-! ### Statements -/

theorem isPresent_of_reads {tokens : List Token} (h : Reads tokens i) : i.isPresent = true := by
  induction h with
  | times ht hn hbody horg hfits ih => exact ih
  | _ => rfl

/-- **The name that an instruction refers to is the one on its line**, if no reference there is
empty. -/
theorem references_of_reads {tokens : List Token} (h : Reads tokens i)
    (hne : ∀ t ∈ tokens, t.kind = .reference → t.text ≠ []) :
    Token.references tokens = i.reference?.toList := by
  have hskip {t : Token} {kind : TokenKind} (ht : t.kind = kind) (hkind : kind ≠ .reference)
      (rest : List Token) : Token.references (t :: rest) = Token.references rest :=
    Token.references_cons_of_ne (ht ▸ hkind) rest
  have hjump {t : Token} {op : UInt8} (ht : jumpOpcode? t.kind = some op) :
      t.kind ≠ .reference := by
    intro hkind
    rw [hkind] at ht
    cases ht
  induction h with
  | byte ht | text ht => exact hskip ht nofun _
  | simple ht =>
    refine Token.references_cons_of_ne (fun hkind => ?_) _
    rw [hkind] at ht
    cases ht
  | times ht hn hbody horg hfits ih =>
    rw [hskip ht nofun, hskip hn.1 nofun]
    exact ih fun t ht' => hne t (List.mem_cons_of_mem _ (List.mem_cons_of_mem _ ht'))
  | origin ht hn =>
    rw [hskip ht nofun, hskip hn.1 nofun]
    rfl
  | offset ht hname hamount =>
    rw [hskip ht nofun, Token.references_cons_of_eq hname, hskip hamount nofun]
    rfl
  | interrupt ht hvector =>
    rw [hskip ht nofun, hskip hvector nofun]
    rfl
  | moveByte ht hr hdst hsrc =>
    rw [hskip ht nofun, hskip hdst nofun, hskip hsrc nofun]
    rfl
  | moveAddress ht hr hdst hsrc =>
    rw [hskip ht nofun, hskip hdst nofun, Token.references_cons_of_eq hsrc]
    rfl
  | moveWord ht hr hdst hsrc =>
    rw [hskip ht nofun, hskip hdst nofun, hskip hsrc nofun]
    rfl
  | orBytes ht hreg hrm =>
    rw [hskip ht nofun, hskip hreg nofun, hskip hrm nofun]
    rfl
  | @jumpName t target op ht htarget =>
    -- an empty name would have become address zero
    have htext : target.text.isEmpty = false := by
      rw [List.isEmpty_eq_false_iff]
      exact hne target (List.mem_cons_of_mem _ List.mem_cons_self) htarget
    rw [Token.references_cons_of_ne (hjump ht), Token.references_cons_of_eq htarget,
      referenceTarget, htext]
    rfl
  | jumpAddress ht htarget =>
    rw [Token.references_cons_of_ne (hjump ht), hskip htarget.1 nofun]
    rfl

end Instruction

/-! ### The second sweep -/

namespace Program

variable {p : Program} {sts : List Statement} {e : AssemblyError}

theorem encodeStatement_eq_error_iff {st : Statement} :
    p.encodeStatement st = .error e ↔
      ∃ fault, st.instruction.encode p.strict p.labels = .error fault ∧
        e = .onLine st.lineNo st.line fault := by
  unfold encodeStatement
  cases st.instruction.encode p.strict p.labels <;> simp [eq_comm]

theorem encodeStatement_eq_ok_iff {st : Statement} {code : Bytes} :
    p.encodeStatement st = .ok code ↔ st.instruction.encode p.strict p.labels = .ok code := by
  unfold encodeStatement
  cases st.instruction.encode p.strict p.labels <;> simp

/-- The second sweep stops at the first statement that cannot be encoded. -/
theorem encodeOnto_eq_error_iff {done : List Bytes} :
    p.encodeOnto done sts = .error e ↔
      ∃ before st after, sts = before ++ st :: after ∧
        (∀ st' ∈ before, ∃ code, p.encodeStatement st' = .ok code) ∧
        p.encodeStatement st = .error e := by
  induction sts generalizing done with
  | nil =>
    constructor
    · intro h
      cases h
    · rintro ⟨before, st, after, hsplit, -⟩
      cases before <;> cases hsplit
  | cons st sts ih =>
    rw [encodeOnto]
    cases hst : p.encodeStatement st with
    | ok code =>
      rw [ih]
      constructor
      · rintro ⟨before, st', after, rfl, hbefore, hst'⟩
        refine ⟨st :: before, st', after, rfl, fun st'' hst'' => ?_, hst'⟩
        rcases List.mem_cons.mp hst'' with rfl | hst''
        · exact ⟨code, hst⟩
        · exact hbefore st'' hst''
      · rintro ⟨before, st', after, hsplit, hbefore, hst'⟩
        cases before with
        | nil =>
          obtain ⟨rfl, -⟩ := List.cons.inj hsplit
          rw [hst] at hst'
          cases hst'
        | cons st'' before =>
          obtain ⟨rfl, rfl⟩ := List.cons.inj hsplit
          exact ⟨before, st', after, rfl,
            fun st₀ hst₀ => hbefore st₀ (List.mem_cons_of_mem _ hst₀), hst'⟩
    | error e' =>
      constructor
      · intro h
        obtain rfl := Except.error.inj h
        exact ⟨[], st, sts, rfl, fun _ hnil => (List.not_mem_nil hnil).elim, hst⟩
      · rintro ⟨before, st', after, hsplit, hbefore, hst'⟩
        cases before with
        | nil =>
          obtain ⟨rfl, -⟩ := List.cons.inj hsplit
          rw [← hst, hst']
        | cons st'' before =>
          obtain ⟨rfl, -⟩ := List.cons.inj hsplit
          obtain ⟨code, hcode⟩ := hbefore st List.mem_cons_self
          rw [hst] at hcode
          cases hcode

/-- **What the second sweep refuses in a program**, in either mode. -/
structure Refusals (p : Program) : Prop where
  /-- The name that a statement refers to is the one on its line, and is not empty. -/
  references (st : Statement) : st ∈ p.statements → ∃ loc tokens, loc.current = st.address ∧
    Token.ofLine loc st.line = .ok tokens ∧
    Instruction.ofTokens (Token.behindLabel tokens) = .ok st.instruction ∧
    Token.references (Token.behindLabel tokens) = st.instruction.reference?.toList ∧
    [] ∉ Token.references (Token.behindLabel tokens)
  /-- Without strict mode, encoding fails if a statement refers to a missing name. -/
  lenient : (∃ e, encode { p with strict := false } = .error e) ↔
    ∃ st ∈ p.statements, st.instruction.Dangles p.labels
  /-- In strict mode it also fails if a jump is out of range. -/
  strict : (∃ e, encode { p with strict := true } = .error e) ↔
    (∃ st ∈ p.statements, st.instruction.Dangles p.labels) ∨
      ∃ st ∈ p.statements, st.instruction.Overshoots p.labels
  /-- The error names the line of the first statement that is refused, and why it is. -/
  first (strict : Bool) (e : AssemblyError) : encode { p with strict := strict } = .error e →
    ∃ before st after fault, p.statements = before ++ st :: after ∧
      (∀ st' ∈ before, ∀ fault', ¬ st'.instruction.Refuses strict p.labels fault') ∧
      st.instruction.Refuses strict p.labels fault ∧ e = .onLine st.lineNo st.line fault
  /-- No statement lacks an instruction. -/
  valid (strict : Bool) (number : Nat) (line : Bytes) :
    encode { p with strict := strict } ≠ .error (.onLine number line .invalidInstruction)
  /-- A statement is encoded only if the name that it refers to has an address, and with it. -/
  resolved (strict : Bool) (st : Statement) (code name : Bytes) : st ∈ p.statements →
    encodeStatement { p with strict := strict } st = .ok code →
    st.instruction.reference? = some name → ∃ addr, p.labels.find? name = some addr ∧
      st.instruction.encode strict (LabelTable.empty.bind name addr) = .ok code

variable (hpresent : ∀ st ∈ p.statements, st.instruction.isPresent = true)

include hpresent

/-- A program fails for the first statement that is refused. -/
theorem exists_first_refused {strict : Bool} (h : encode { p with strict := strict } = .error e) :
    ∃ before st after fault, p.statements = before ++ st :: after ∧
      (∀ st' ∈ before, ∀ fault', ¬ st'.instruction.Refuses strict p.labels fault') ∧
      st.instruction.Refuses strict p.labels fault ∧ e = .onLine st.lineNo st.line fault := by
  obtain ⟨before, st, after, hsplit, hbefore, hst⟩ := encodeOnto_eq_error_iff.mp h
  obtain ⟨fault, hfault, rfl⟩ := encodeStatement_eq_error_iff.mp hst
  have hsplit : p.statements = before ++ st :: after := hsplit
  have hmem {st' : Statement} (hst' : st' ∈ before ++ st :: after) :
      st'.instruction.isPresent = true := hpresent st' (hsplit ▸ hst')
  refine ⟨before, st, after, fault, hsplit, ?_, ?_, rfl⟩
  · intro st' hst' fault' hrefuses
    obtain ⟨code, hcode⟩ := hbefore st' hst'
    have hencode : st'.instruction.encode strict p.labels = .ok code :=
      encodeStatement_eq_ok_iff.mp hcode
    rw [(Instruction.encode_eq_error_iff (hmem (List.mem_append_left _ hst'))).mpr hrefuses]
      at hencode
    cases hencode
  · exact (Instruction.encode_eq_error_iff
      (hmem (List.mem_append_right _ List.mem_cons_self))).mp hfault

/-- A program fails if some statement is refused, and only then. -/
theorem exists_error_iff {strict : Bool} :
    (∃ e, encode { p with strict := strict } = .error e) ↔
      ∃ st ∈ p.statements, ∃ fault, st.instruction.Refuses strict p.labels fault := by
  constructor
  · rintro ⟨e, he⟩
    obtain ⟨before, st, after, fault, hsplit, -, hrefuses, -⟩ := exists_first_refused hpresent he
    exact ⟨st, hsplit ▸ List.mem_append_right _ List.mem_cons_self, fault, hrefuses⟩
  · rintro ⟨st, hst, fault, hrefuses⟩
    -- a program without an error has the bytes of every statement
    cases hencode : encode { p with strict := strict } with
    | error e => exact ⟨e, rfl⟩
    | ok code =>
      obtain ⟨before, after, hsplit⟩ := List.append_of_mem hst
      obtain ⟨rest, -, hencodes⟩ := encodes_of_encodeOnto hencode
      have hencodes : Encodes { p with strict := strict } (before ++ st :: after) rest :=
        hsplit ▸ hencodes
      obtain ⟨_, _, -, -, htail⟩ := hencodes.exists_of_append
      cases htail with
      | cons hown hafter =>
        have herror := (Instruction.encode_eq_error_iff (hpresent st hst)).mpr hrefuses
        rw [encodeStatement, herror] at hown
        cases hown

/-- What is encoded has an address for the name that it refers to, and no other name matters. -/
theorem exists_address_of_encodeStatement {strict : Bool} {st : Statement} {code name : Bytes}
    (hst : st ∈ p.statements) (hcode : encodeStatement { p with strict := strict } st = .ok code)
    (hname : st.instruction.reference? = some name) :
    ∃ addr, p.labels.find? name = some addr ∧
      st.instruction.encode strict (LabelTable.empty.bind name addr) = .ok code := by
  have hencode : st.instruction.encode strict p.labels = .ok code :=
    encodeStatement_eq_ok_iff.mp hcode
  cases hfind : p.labels.find? name with
  | some addr =>
    refine ⟨addr, rfl, ?_⟩
    rw [← hencode]
    refine Instruction.encode_congr fun name' hname' => ?_
    obtain rfl := Option.some.inj (hname.symm.trans hname')
    rw [hfind, LabelTable.find?_bind, if_pos rfl]
  | none =>
    have herror : st.instruction.encode strict p.labels = .error (.labelMissing name) :=
      (Instruction.encode_eq_error_iff (hpresent st hst)).mpr (.inl ⟨name, hname, hfind, rfl⟩)
    rw [hencode] at herror
    cases herror

end Program

/-- **Undefined references are rejected, always and only they.** -/
theorem Assembler.refusals_of_parse (a : Assembler) (source : Bytes) (p : Program)
    (hparse : a.parse source = .ok p) : p.Refusals := by
  obtain ⟨-, s, hs, rfl⟩ := parse_eq_ok_iff.mp hparse
  have hpresent : ∀ st ∈ s.statements.toList, st.instruction.isPresent = true := by
    intro st hst
    obtain ⟨n, s₀, -, hplaced⟩ := exists_placedIn_of_mem hs hst
    obtain ⟨tokens, -, hinstruction⟩ := hplaced.reads
    exact Instruction.isPresent_of_reads (Instruction.reads_of_ofTokens hinstruction)
  constructor
  case references =>
    intro st hst
    obtain ⟨n, s₀, -, hplaced⟩ := exists_placedIn_of_mem hs hst
    obtain ⟨tokens, htokens, hinstruction⟩ := hplaced.reads
    have hne : ∀ t ∈ Token.behindLabel tokens, t.kind = .reference → t.text ≠ [] := fun t ht =>
      Token.text_ne_nil_of_ofLine htokens (Token.mem_of_mem_behindLabel ht)
    refine ⟨s₀.location, tokens, hplaced.address.symm, htokens, hinstruction,
      Instruction.references_of_reads (Instruction.reads_of_ofTokens hinstruction) hne, ?_⟩
    intro hnil
    obtain ⟨t, ht, hkind, htext⟩ := Token.mem_references_iff.mp hnil
    exact hne t ht hkind htext
  case lenient =>
    rw [Program.exists_error_iff hpresent]
    simp [Instruction.exists_refuses_iff]
  case strict =>
    rw [Program.exists_error_iff hpresent]
    simp only [Instruction.exists_refuses_iff, true_and, and_or_left, exists_or]
  case first =>
    intro strict e he
    exact Program.exists_first_refused hpresent he
  case valid =>
    intro strict number line he
    obtain ⟨_, st, _, fault, -, -, hrefuses, heq⟩ := Program.exists_first_refused hpresent he
    obtain ⟨-, -, rfl⟩ := AssemblyError.onLine.inj heq
    rcases hrefuses with ⟨name, -, -, hfault⟩ | ⟨-, -, hfault⟩ <;> cases hfault
  case resolved =>
    intro strict st code name hst hcode hname
    exact Program.exists_address_of_encodeStatement hpresent hst hcode hname

/-- A missing name under a repetition of zero copies, behind a jump that is out of range.  The
program fails in both modes, and in lenient mode not for the jump. -/
theorem Assembler.refusals_under_zero :
    ∃ (p : Program) (far gone : Statement),
      ({} : Assembler).parse (Bytes.ofString
        "jmp far\ntimes 0 times 2 offset gone 0\ntimes 200 0x90\nfar:") = .ok p ∧
      p.statements.take 2 = [far, gone] ∧
      gone.instruction = .times 0 (.times 2 (.offset (Bytes.ofString "gone") 0)) ∧
      (∃ e, Program.encode { p with strict := false } = .error e) ∧
      (∃ e, Program.encode { p with strict := true } = .error e) ∧
      ∀ code, Program.encodeStatement { p with strict := false } far = .ok code →
        ∃ addr, p.labels.find? (Bytes.ofString "far") = some addr ∧
          far.instruction.encode false
            (LabelTable.empty.bind (Bytes.ofString "far") addr) = .ok code := by
  let source := Bytes.ofString "jmp far\ntimes 0 times 2 offset gone 0\ntimes 200 0x90\nfar:"
  let far : Statement :=
    ⟨1, Bytes.ofString "jmp far", 0, .jump 0xEB 0 (.label (Bytes.ofString "far"))⟩
  let gone : Statement := ⟨2, Bytes.ofString "times 0 times 2 offset gone 0", 2,
    .times 0 (.times 2 (.offset (Bytes.ofString "gone") 0))⟩
  let pad : Statement := ⟨3, Bytes.ofString "times 200 0x90", 2, .times 200 (.byte 0x90)⟩
  let p : Program :=
    ⟨[far, gone, pad], LabelTable.empty.bind (Bytes.ofString "far") 202, false⟩
  have hparse : ({} : Assembler).parse source = .ok p := rfl
  have hrefusals := refusals_of_parse {} source p hparse
  have hgone : gone.instruction.Dangles p.labels := ⟨Bytes.ofString "gone", rfl, rfl⟩
  have hfar : far.instruction.Overshoots p.labels := by
    refine ⟨0, .label (Bytes.ofString "far"), 202, rfl, rfl, ?_⟩
    rintro ⟨d, hlow, hhigh, hland⟩
    have hland : ((0 : Int) + 2 + d) % 65536 = 202 := hland
    omega
  refine ⟨p, far, gone, hparse, rfl, rfl, ?_, ?_, ?_⟩
  · exact hrefusals.lenient.mpr ⟨gone, by simp [p], hgone⟩
  · exact hrefusals.strict.mpr (.inr ⟨far, by simp [p], hfar⟩)
  · intro code hcode
    exact hrefusals.resolved false far code _ (by simp [p]) hcode rfl

end BootSector
