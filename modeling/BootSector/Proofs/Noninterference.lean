import BootSector.Proofs.Labels
import BootSector.Proofs.Strictness

/-!
# Names that play no part

The bytes of an instruction depend on the one name that it refers to (`Instruction.encode_congr`).
The first sweep looks up no name at all, it only binds them.  So a name that no line has as an
operand can be predefined without any trace in the machine code, even when the source defines it as
a label.

Two sweeps, with and without the predefinition, are in states that agree on everything but the
address of that name, and on what was reported (`Sweep.AgreeOff`).  Every line keeps them so
(`AgreeOff.advances`).
-/

namespace BootSector

/-! ### One more predefinition -/

namespace Predefine

variable {evaluate : Formula.Evaluator} {env : Formula.Env} {labels table : LabelTable}
  {defs : List Predefine} {d : Predefine} {addr : UInt16}

/-- The address that an integer from 0 to 65535 stands for. -/
theorem address_of_evaluate {formula : Bytes} {value : Int}
    (h : evaluate env formula = some value) (hlow : 0 ≤ value) (hhigh : value ≤ 65535) :
    address evaluate env formula = .ok (UInt16.ofNat value.toNat) := by
  unfold address
  rw [h]
  dsimp only
  rw [if_neg (by omega), if_neg (by omega)]

/-- **A further predefinition is evaluated behind all others**, and only adds its name. -/
theorem bindFrom_concat (h : bindFrom evaluate env labels defs = .ok table)
    (haddr : address evaluate (environment evaluate env defs) d.formula = .ok addr) :
    bindFrom evaluate env labels (defs ++ [d]) = .ok (table.bind d.name addr) := by
  induction defs generalizing env labels with
  | nil =>
    obtain rfl := Except.ok.inj h
    have haddr : address evaluate env d.formula = .ok addr := haddr
    simp only [List.nil_append, bindFrom, haddr]
  | cons e defs ih =>
    obtain ⟨addr', haddr', hrest⟩ := address_of_bindFrom_cons h
    rw [environment, haddr'] at haddr
    rw [List.cons_append, bindFrom, haddr']
    exact ih hrest haddr

/-- A fresh name comes behind all others. -/
theorem insert_of_fresh (h : ∀ e ∈ defs, e.name ≠ d.name) : insert defs d = defs ++ [d] := by
  induction defs with
  | nil => rfl
  | cons e defs ih =>
    rw [insert, if_neg (h e List.mem_cons_self), ih fun e' he' => h e' (List.mem_cons_of_mem e he')]
    rfl

end Predefine

/-! ### Operands -/

/-- **The line has the name as an operand**, at some location. -/
def Token.HasOperand (name line : Bytes) : Prop :=
  ∃ loc tokens, ofLine loc line = .ok tokens ∧ name ∈ references tokens

/-- A name that a statement refers to is an operand on its line. -/
theorem Assembler.hasOperand_of_after {a : Assembler} {lines : List Bytes} {s : Sweep}
    {st : Statement} {name : Bytes} (h : a.after lines = some s) (hst : st ∈ s.statements.toList)
    (hname : st.instruction.reference? = some name) :
    ∃ line ∈ lines, Token.HasOperand name line := by
  obtain ⟨i, hi⟩ := List.mem_iff_getElem?.mp hst
  obtain ⟨n, s₀, -, hline, -, -, hplaced⟩ := exists_placedIn h hi
  obtain ⟨tokens, htokens, hinstruction⟩ := hplaced.reads
  have hne : ∀ t ∈ Token.behindLabel tokens, t.kind = .reference → t.text ≠ [] := fun t ht =>
    Token.text_ne_nil_of_ofLine htokens (Token.mem_of_mem_behindLabel ht)
  have hmem : name ∈ Token.references (Token.behindLabel tokens) := by
    rw [Instruction.references_of_reads (Instruction.reads_of_ofTokens hinstruction) hne, hname]
    exact List.mem_singleton.mpr rfl
  obtain ⟨t, ht, hkind, htext⟩ := Token.mem_references_iff.mp hmem
  exact ⟨st.line, List.mem_of_getElem? hline, s₀.location, tokens, htokens,
    Token.mem_references_iff.mpr ⟨t, Token.mem_of_mem_behindLabel ht, hkind, htext⟩⟩

/-! ### Two sweeps -/

namespace Sweep

variable {name : Bytes} {verbose : Bool} {s s' t : Sweep} {number : Nat} {line : Bytes}

/-- **Two states agree but for one name.** -/
structure AgreeOff (name : Bytes) (s t : Sweep) : Prop where
  location : t.location = s.location
  reach : t.reach = s.reach
  statements : t.statements = s.statements
  labels (m : Bytes) : m ≠ name → t.labels.find? m = s.labels.find? m

theorem AgreeOff.entered (h : AgreeOff name s t) (tokens : List Token) :
    AgreeOff name (s.entered verbose number line tokens) (t.entered verbose number line tokens) where
  location := by rw [entered_location, entered_location, h.location]
  reach := by rw [entered_reach, entered_reach, h.reach]
  statements := by rw [entered_statements, entered_statements, h.statements]
  labels := by
    intro m hm
    rw [entered_labels, entered_labels]
    cases Token.definedLabel? tokens with
    | none => exact h.labels m hm
    | some label =>
      -- both bind the label to the same address
      simp only [LabelTable.find?_bind, h.location, h.labels m hm]

/-- **A line takes both states on**, and they still agree. -/
theorem AgreeOff.advances (h : AgreeOff name s t) (hadv : Advances verbose s number line s') :
    ∃ t', Advances verbose t number line t' ∧ AgreeOff name s' t' := by
  cases hadv with
  | @bare tokens htokens hlabel hrest =>
    exact ⟨_, .bare (h.location ▸ htokens) (h.reach ▸ hlabel) hrest, h.entered tokens⟩
  | @org tokens addr htokens hlabel hi =>
    refine ⟨_, .org (h.location ▸ htokens) (h.reach ▸ hlabel) hi, ?_⟩
    exact ⟨rfl, rfl, (h.entered tokens).statements, (h.entered tokens).labels⟩
  | @place tokens i htokens hlabel hi horg hfits =>
    refine ⟨_, .place (h.location ▸ htokens) (h.reach ▸ hlabel) hi horg (h.reach ▸ hfits), ?_⟩
    refine ⟨?_, ?_, ?_, (h.entered tokens).labels⟩
    · simp only [h.location]
    · simp only [h.reach]
    · simp only [h.statements, h.location]

end Sweep

namespace Assembler

variable {a : Assembler} {lines : List Bytes} {s : Sweep}

/-- **A sweep with one more predefinition** gets as far, to a state that agrees but for the name. -/
theorem exists_agreeOff {d : Predefine} {addr : UInt16}
    (haddr : Predefine.address a.evaluate (Predefine.environment a.evaluate
      (Predefine.baseEnv a.origin) a.predefines) d.formula = .ok addr)
    (h : a.after lines = some s) :
    ∃ t, Assembler.after { a with predefines := a.predefines ++ [d] } lines = some t ∧
      Sweep.AgreeOff d.name s t := by
  refine after_induction (P := fun lines s =>
    ∃ t, Assembler.after { a with predefines := a.predefines ++ [d] } lines = some t ∧
      Sweep.AgreeOff d.name s t) (fun labels hlabels => ?_) ?_ h
  · have htable : Predefine.table a.evaluate a.origin (a.predefines ++ [d]) =
        .ok (labels.bind d.name addr) :=
      Predefine.bindFrom_concat hlabels haddr
    refine ⟨.start a.origin (labels.bind d.name addr), ?_, rfl, rfl, rfl, fun m hm => ?_⟩
    · unfold after
      simp only [htable]
      rfl
    · exact (LabelTable.find?_bind labels d.name addr m).trans (if_neg hm)
  · rintro lines s line s' hs ⟨t, ht, hagree⟩ hadv
    obtain ⟨t', hadv', hagree'⟩ := hagree.advances hadv
    refine ⟨t', ?_, hagree'⟩
    rw [after_append, ht]
    exact Sweep.run?_cons_eq_some_iff.mpr ⟨t', hadv', rfl⟩

end Assembler

/-! ### Machine code -/

/-- Programs with the same statements have the same machine code if their tables agree on the names
that the statements refer to. -/
theorem Program.encode_congr {p q : Program} (hstatements : q.statements = p.statements)
    (hstrict : q.strict = p.strict)
    (hlabels : ∀ st ∈ p.statements, ∀ name, st.instruction.reference? = some name →
      q.labels.find? name = p.labels.find? name) : q.encode = p.encode := by
  unfold encode
  rw [hstatements]
  refine encodeOnto_congr (fun st hst => ?_) []
  rw [encodeStatement, encodeStatement, hstrict, Instruction.encode_congr (hlabels st hst)]

/-- **Irrelevant names do not influence code.**  An instruction has the same bytes, or the same
fault, under any two tables that agree on the names that it refers to.  So when a source is
assembled, a fresh name can be predefined behind all others without any change of statements,
addresses and bytes, as long as its formula gives an address and no line has it as an operand.  The
evaluator of the assembler may be any function of a formula and of the names in front of it. -/
theorem irrelevant_names :
    (∀ (i : Instruction) (strict : Bool) (labels labels' : LabelTable),
      (∀ name, i.reference? = some name → labels.find? name = labels'.find? name) →
      i.encode strict labels = i.encode strict labels') ∧
    ∀ (a : Assembler) (source code : Bytes) (p : Program) (d : Predefine) (value : Int),
      a.parse source = .ok p → p.encode = .ok code → (∀ e ∈ a.predefines, e.name ≠ d.name) →
      a.evaluate (Predefine.environment a.evaluate (Predefine.baseEnv a.origin) a.predefines)
        d.formula = some value → 0 ≤ value → value ≤ 65535 →
      (∀ line ∈ (Reading.ofBytes source).lines, ¬ Token.HasOperand d.name line) →
      (a.predefine d.name d.formula).predefines = a.predefines ++ [d] ∧
      ∃ q, (a.predefine d.name d.formula).parse source = .ok q ∧ q.statements = p.statements ∧
        q.strict = p.strict ∧ (∀ name, name ≠ d.name → q.labels.find? name = p.labels.find? name) ∧
        q.encode = .ok code := by
  constructor
  · exact fun i strict labels labels' h => Instruction.encode_congr h
  · intro a source code p d value hparse hcode hfresh hvalue hlow hhigh hunused
    have hinsert : Predefine.insert a.predefines d = a.predefines ++ [d] :=
      Predefine.insert_of_fresh hfresh
    refine ⟨hinsert, ?_⟩
    obtain ⟨hread, s, hs, rfl⟩ := Assembler.parse_eq_ok_iff.mp hparse
    obtain ⟨t, ht, hagree⟩ :=
      Assembler.exists_agreeOff (Predefine.address_of_evaluate hvalue hlow hhigh) hs
    have hassembler : a.predefine d.name d.formula =
        { a with predefines := a.predefines ++ [d] } := by
      rw [← hinsert]
      rfl
    refine ⟨⟨t.statements.toList, t.labels, a.strict⟩, ?_, by rw [hagree.statements], rfl,
      hagree.labels, ?_⟩
    · rw [hassembler]
      exact Assembler.parse_eq_ok_iff.mpr ⟨hread, t, ht, rfl⟩
    · rw [← hcode]
      refine Program.encode_congr (by rw [hagree.statements]) rfl fun st hst name hname => ?_
      refine hagree.labels name ?_
      rintro rfl
      obtain ⟨line, hline, hoperand⟩ := Assembler.hasOperand_of_after hs hst hname
      exact hunused line hline hoperand

/-- A name that is predefined from another one.  The source defines it as a label as well, but has only
the other name as an operand. -/
theorem irrelevant_names_defined :
    ∃ (a : Assembler) (source : Bytes) (p q : Program) (d : Predefine),
      a.parse source = .ok p ∧ p.encode = .ok [0xF4, 0x11, 0x00] ∧
      (∀ e ∈ a.predefines, e.name ≠ d.name) ∧
      a.evaluate (Predefine.environment a.evaluate (Predefine.baseEnv a.origin) a.predefines)
        d.formula = some 0x10 ∧
      (∀ line ∈ (Reading.ofBytes source).lines, ¬ Token.HasOperand d.name line) ∧
      p.labels.find? d.name = some 1 ∧ (a.predefine d.name d.formula).parse source = .ok q ∧
      q.statements = p.statements ∧ q.encode = .ok [0xF4, 0x11, 0x00] ∧
      ∀ strict, (Instruction.offset d.name 1).encode strict p.labels =
        (Instruction.offset d.name 1).encode strict (LabelTable.empty.bind d.name 1) := by
  let base := Bytes.ofString "BASE"
  let extra := Bytes.ofString "extra"
  let a : Assembler := { predefines := [⟨base, Bytes.ofString "0x10"⟩] }
  let d : Predefine := ⟨extra, base⟩
  let first := Bytes.ofString "hlt"
  let second := Bytes.ofString "extra: offset BASE 1"
  let source := Bytes.ofString "hlt\nextra: offset BASE 1"
  let p : Program :=
    ⟨[⟨1, first, 0, .simple 0xF4⟩, ⟨2, second, 1, .offset base 1⟩],
      (LabelTable.empty.bind base 0x10).bind extra 1, false⟩
  have hparse : a.parse source = .ok p := rfl
  have hcode : p.encode = .ok [0xF4, 0x11, 0x00] := rfl
  have hfresh : ∀ e ∈ a.predefines, e.name ≠ d.name := by decide
  have hvalue : a.evaluate
      (Predefine.environment a.evaluate (Predefine.baseEnv a.origin) a.predefines) d.formula =
        some 0x10 := rfl
  have hunused : ∀ line ∈ (Reading.ofBytes source).lines, ¬ Token.HasOperand d.name line := by
    have hlines : (Reading.ofBytes source).lines = [first, second] := rfl
    rw [hlines]
    rintro line hline ⟨loc, tokens, htokens, hname⟩
    rcases List.mem_pair.mp hline with rfl | rfl
    · have hread : Token.ofLine loc first = .ok [.ofKind .hlt] := rfl
      obtain rfl := Except.ok.inj (hread.symm.trans htokens)
      exact absurd hname (by decide)
    · have hread : Token.ofLine loc second =
          .ok [.label extra, .ofKind .offset, .reference base, .number 1] := rfl
      obtain rfl := Except.ok.inj (hread.symm.trans htokens)
      exact absurd hname (by decide)
  obtain ⟨-, q, hq, hstatements, -, -, hcode'⟩ := irrelevant_names.2 a source _ p d 0x10 hparse hcode
    hfresh hvalue (by decide) (by decide) hunused
  refine ⟨a, source, p, q, d, hparse, hcode, hfresh, hvalue, hunused, rfl, hq, hstatements, hcode',
    fun strict => irrelevant_names.1 _ strict _ _ ?_⟩
  rintro name ⟨⟩
  rfl

end BootSector
