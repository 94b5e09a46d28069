import BootSector.Proofs.FirstFault
import BootSector.Proofs.Labels
import BootSector.Proofs.References
import BootSector.Proofs.Rendering

/-!
# Labels that can be used

A name with a colon behind it is the definition of a label, whatever the name is.  A name without a
colon is looked up first, in lower case, among the mnemonics and the registers, and only a name that
is neither refers to a label.  So the names that can be defined fall into two classes.  A name whose
lower case is free can be jumped to, and the jump gets the address of its last definition
(`Usable`).  A name whose lower case is reserved can be defined, but nothing can ever refer to it
(`Unusable`).
-/

namespace BootSector

namespace Token

variable {loc : Location} {word : List Char} {name line : Bytes} {tokens : List Token} {t : Token}

/-! ### Reserved names -/

/-- The lower case of a name, as which it is looked up. -/
def lowerCase (name : Bytes) : Bytes := Bytes.ofChars ((Text.Utf8.decode name).map Text.toLower)

theorem lowerCase_ofChars (word : List Char) :
    lowerCase (Bytes.ofChars word) = Bytes.ofChars (word.map Text.toLower) := by
  rw [lowerCase, Text.Utf8.decode_ofChars]

/-- The kinds of mnemonics and registers. -/
def reservedKinds : List TokenKind := mnemonics.map (·.2) ++ [.register8, .register16]

/-- A reserved name is read as a mnemonic or a register. -/
theorem kind_ofName_of_reserved (h : Bytes.ofChars (word.map Text.toLower) ∈ reserved) :
    (ofName loc word).kind ∈ reservedKinds := by
  have hmnemonics : ∀ name ∈ mnemonics.map (·.1), ∃ kind ∈ mnemonics.map (·.2),
      mnemonic? name = some kind := by decide
  have hregisters : ∀ name ∈ Register.byteNames ++ Register.wordNames, mnemonic? name = none ∧
      (ofRegister? name).any (fun t => t.kind ∈ [TokenKind.register8, .register16]) := by decide
  rw [reserved, List.append_assoc, List.mem_append] at h
  rcases h with h | h
  · obtain ⟨kind, hkind, hfind⟩ := hmnemonics _ h
    simp only [ofName, hfind]
    split
    · exact List.mem_append_left _ hkind
    · exact List.mem_append_left _ hkind
  · obtain ⟨hnone, hany⟩ := hregisters _ h
    obtain ⟨t, ht, hkind⟩ := Option.any_eq_true _ _ |>.mp hany
    simp only [ofName, hnone, ht, Option.getD_some]
    exact List.mem_append_right _ (of_decide_eq_true hkind)

/-- A reserved name is no token of another kind. -/
theorem kind_ne_of_reserved {kind : TokenKind} (hkind : kind ∉ reservedKinds)
    (h : Bytes.ofChars (word.map Text.toLower) ∈ reserved) : (ofName loc word).kind ≠ kind := by
  rintro rfl
  exact hkind (kind_ofName_of_reserved h)

theorem kind_ofName_ne_openParen : (ofName loc word).kind ≠ .openParen := by
  by_cases h : Bytes.ofChars (word.map Text.toLower) ∈ reserved
  · exact kind_ne_of_reserved (by decide) h
  · rw [ofName_of_not_mem_reserved h]
    exact TokenKind.noConfusion

/-- **The labels and references of a line have names**, and the references have free ones. -/
theorem exists_isName_of_mem (h : ofLine loc line = .ok tokens) (ht : t ∈ tokens)
    (hkind : t.kind = .label ∨ t.kind = .reference) :
    ∃ word, IsName word ∧ t.text = Bytes.ofChars word ∧
      (t.kind = .reference → Bytes.ofChars (word.map Text.toLower) ∉ reserved) := by
  cases made_of_ofLine h ht with
  | string text => rcases hkind with hkind | hkind <;> cases hkind
  | number v => rcases hkind with hkind | hkind <;> cases hkind
  | literal hliteral =>
    have hvalue := isValue_of_ofLiteral hliteral
    rcases hkind with hkind | hkind <;> rw [isValue, hkind] at hvalue <;> cases hvalue
  | punctuation hpunctuation =>
    unfold punctuation? at hpunctuation
    rcases hkind with hkind | hkind <;> split at hpunctuation <;> cases hpunctuation <;> cases hkind
  | @label word hword =>
    refine ⟨word, hword, rfl, fun hreference => ?_⟩
    cases hreference
  | @name word hword =>
    have hfree : Bytes.ofChars (word.map Text.toLower) ∉ reserved := fun hreserved =>
      hkind.elim (kind_ne_of_reserved (by decide) hreserved)
        (kind_ne_of_reserved (by decide) hreserved)
    refine ⟨word, hword, ?_, fun _ => hfree⟩
    rw [ofName_of_not_mem_reserved hfree]
    rfl

/-- No line refers to a reserved name. -/
theorem reference_not_mem (h : ofLine loc line = .ok tokens) (hname : lowerCase name ∈ reserved) :
    reference name ∉ tokens := by
  intro hmem
  obtain ⟨word, -, htext, hfree⟩ := exists_isName_of_mem h hmem (.inr rfl)
  have hname' : name = Bytes.ofChars word := htext
  rw [hname', lowerCase_ofChars] at hname
  exact hfree rfl hname

/-! ### The line of a jump -/

/-- The line that jumps to a name. -/
def jumpLine (name : Bytes) : Bytes := Bytes.ofString "jmp " ++ name

/-- A jump is read with whatever its name stands for. -/
theorem ofLine_jumpLine (hword : IsName word) :
    ofLine loc (jumpLine (Bytes.ofChars word)) =
      .ok [jump .jmp loc.current, ofName loc word] := by
  have hline : Text.Utf8.decode (jumpLine (Bytes.ofChars word)) =
      TokenKind.jmp.name ++ (' ' :: word) := by
    rw [jumpLine, Bytes.ofString, ← Bytes.ofChars_append, Text.Utf8.decode_ofChars]
    rfl
  have hmnemonic : (Bytes.ofString "jmp", TokenKind.jmp) ∈ mnemonics := by decide
  have hscan : scan loc (TokenKind.jmp.name ++ (' ' :: word)) =
      .ok [jump .jmp loc.current, ofName loc word] := by
    rw [scan, readsAs_mnemonic loc hmnemonic [] _ (separated_space word) (by rintro u ⟨⟩)]
    -- the space makes no token
    show scanOnto loc [jump .jmp loc.current] 0 word = _
    have hreads : ReadsAs loc word (ofName loc word) := readsAs_name hword
    have hfollow : ∀ u ∈ [jump .jmp loc.current].head?, MayFollow u (ofName loc word) := by
      rintro u ⟨⟩ - -
      exact ⟨rfl, TokenKind.noConfusion⟩
    rw [← List.append_nil word, hreads _ [] separated_nil hfollow, List.append_nil]
    rfl
  rw [ofLine, hline, hscan]
  apply fold_eq_self
  rw [List.forall_mem_cons, List.forall_mem_singleton]
  exact ⟨TokenKind.noConfusion, kind_ofName_ne_openParen⟩

end Token

/-! ### Jumps to a label -/

open Token

namespace Instruction

/-- A jump to a name goes to its label. -/
theorem ofTokens_jump_reference {name : Bytes} (hne : name ≠ []) (position : UInt16) :
    ofTokens [Token.jump .jmp position, reference name] =
      .ok (.jump Opcode.jmp position (.label name)) := by
  have hempty : ¬ name.isEmpty = true := fun h => hne (List.isEmpty_iff.mp h)
  rw [ofTokens_jump rfl]
  show Except.ok (jump Opcode.jmp position (referenceTarget name)) = _
  rw [referenceTarget, if_neg hempty]

/-- A jump goes to nothing but a reference or a number. -/
theorem ofTokens_jump_of_kind {t : Token} (href : t.kind ≠ .reference)
    (hnumber : t.kind ≠ .number) (position : UInt16) :
    ofTokens [Token.jump .jmp position, t] = .error .invalidParameter := by
  rw [ofTokens_jump rfl, ofJump]
  split
  · rename_i hkind
    exact absurd hkind href
  · rename_i hkind
    exact absurd hkind hnumber
  · rfl

end Instruction

namespace LabelDefinition

/-- The definition is the last one of its name. -/
def IsLast (d : LabelDefinition) (ds : List LabelDefinition) : Prop :=
  ∃ before later, ds = before ++ d :: later ∧ ∀ e ∈ later, e.name ≠ d.name

/-- A name that is defined has a last definition. -/
theorem exists_isLast {e : LabelDefinition} {ds : List LabelDefinition} (h : e ∈ ds) :
    ∃ d : LabelDefinition, d.name = e.name ∧ d.IsLast ds := by
  induction ds using List.reverseRecOn with
  | nil => cases h
  | append_singleton ds d ih =>
    by_cases hd : d.name = e.name
    · exact ⟨d, hd, ds, [], rfl, nofun⟩
    · -- the last definition is then among the others, and `d` does not come in its way
      have hmem : e ∈ ds := by
        rcases List.mem_append.mp h with h | h
        · exact h
        · rw [List.mem_singleton.mp h] at hd
          exact absurd rfl hd
      obtain ⟨d', hname, before, later, hsplit, hlater⟩ := ih hmem
      refine ⟨d', hname, before, later ++ [d], by simp [hsplit], fun f hf => ?_⟩
      rcases List.mem_append.mp hf with hf | hf
      · exact hlater f hf
      · rw [List.mem_singleton.mp hf, hname]
        exact hd

end LabelDefinition

/-- **A label that can be used.**  The line that jumps to it is read as such and is refused only
where it does not fit.  The jump goes to the address of the last definition. -/
structure Usable (name : Bytes) : Prop where
  /-- The line that jumps to the label refers to it, wherever it is read. -/
  read (loc : Location) : ofLine loc (jumpLine name) = .ok [jump .jmp loc.current, reference name]
  /-- The line is refused only where a jump does not fit below the end of the address space. -/
  fault (verbose : Bool) (s : Sweep) (number : Nat) : (s.step verbose number (jumpLine name)).2 =
    if Sweep.addressSpace < s.reach + 2 then some .tooLarge else none
  /-- In a source that is accepted, the line is a jump to the label. -/
  placed (a : Assembler) (source : Bytes) (p : Program) (n : Nat) : a.parse source = .ok p →
    (Reading.ofBytes source).lines[n]? = some (jumpLine name) →
    ∃ st ∈ p.statements, st.lineNo = n + 1 ∧
      st.instruction = .jump Opcode.jmp st.address (.label name)
  /-- In a source that defines the label, any jump to it, on whatever line, has the address of the
  last definition as its target. -/
  resolved (a : Assembler) (source : Bytes) (p : Program) (e : LabelDefinition) (st : Statement)
    (opcode : UInt8) (position : UInt16) : a.parse source = .ok p →
    e ∈ a.definitions (Reading.ofBytes source).lines → e.name = name → st ∈ p.statements →
    st.instruction = .jump opcode position (.label name) →
    ∃ d : LabelDefinition, d.name = name ∧ d.IsLast (a.definitions (Reading.ofBytes source).lines) ∧
      position = st.address ∧ (JumpTarget.label name).resolve p.labels = .ok d.address ∧
      st.instruction.encode false p.labels =
        .ok [opcode, Instruction.displacement st.address d.address]

/-- **A label that cannot be used.**  Nothing refers to it, and the line that jumps to it is refused
wherever it stands. -/
structure Unusable (name : Bytes) : Prop where
  /-- No line refers to the label. -/
  unread (loc : Location) (line : Bytes) (tokens : List Token) :
    ofLine loc line = .ok tokens → reference name ∉ tokens
  /-- The line that jumps to the label is read as a jump to something else. -/
  other (loc : Location) : ∃ t, ofLine loc (jumpLine name) = .ok [jump .jmp loc.current, t] ∧
    t.kind ∈ reservedKinds
  /-- That line is refused. -/
  refused (verbose : Bool) (s : Sweep) (number : Nat) :
    (s.step verbose number (jumpLine name)).2 = some .invalidParameter
  /-- No source with that line is accepted. -/
  never (a : Assembler) (source : Bytes) (p : Program) : a.parse source = .ok p →
    jumpLine name ∉ (Reading.ofBytes source).lines

namespace Sweep

variable {verbose : Bool} {s : Sweep} {number : Nat} {line : Bytes} {position : UInt16} {t : Token}

/-- A line that is read as a jump is refused for its target, or else where it does not fit. -/
theorem step_of_jump (h : ofLine s.location line = .ok [jump .jmp position, t]) :
    (s.step verbose number line).2 =
      match Instruction.ofTokens [jump .jmp position, t] with
      | .error fault => some fault
      | .ok i => ((s.noted verbose number line).place number line i).2 := by
  have hunlabelled : (jump .jmp position).kind ≠ .label := TokenKind.noConfusion
  rw [step_eq, h]
  show ((s.noted verbose number line).tokens number line [jump .jmp position, t]).2 = _
  rw [tokens, if_neg hunlabelled, statement, List.isEmpty_cons, if_neg Bool.false_ne_true]
  cases Instruction.ofTokens [jump .jmp position, t] <;> rfl

end Sweep

namespace Assembler

variable {a : Assembler} {lines : List Bytes} {line : Bytes} {s s' : Sweep} {n : Nat}

/-- The statement of a line that holds an instruction. -/
theorem exists_statement_of_line {i : Instruction} (h : a.after lines = some s')
    (hline : lines[n]? = some line) (hs : a.after (lines.take n) = some s)
    (hon : Sweep.instructionOn? s.location line = some i) (horg : i.isOrigin = false) :
    ⟨n + 1, line, s.location.current, i⟩ ∈ s'.statements.toList := by
  obtain ⟨s₁, hs₁⟩ := exists_after_take (n + 1) h
  obtain ⟨s₀, hs₀, hadv⟩ := advances_of_after_take hs₁ hline
  obtain rfl : s₀ = s := Option.some.inj (hs₀.symm.trans hs)
  have hmem : ⟨n + 1, line, s₀.location.current, i⟩ ∈ s₁.statements.toList := by
    cases hadv with
    | bare htokens hlabel hrest =>
      rw [Sweep.instructionOn?, htokens] at hon
      simp only [hrest] at hon
      cases hon
    | org htokens hlabel hi =>
      rw [Sweep.instructionOn?_eq htokens hi] at hon
      obtain rfl := Option.some.inj hon
      cases horg
    | place htokens hlabel hi horg hfits =>
      rw [Sweep.instructionOn?_eq htokens hi] at hon
      obtain rfl := Option.some.inj hon
      simp
  exact (statements_prefix_of_after hs₁ h).subset hmem

end Assembler

/-! ### Which labels can be used -/

theorem usable_of_isName {word : List Char} (hword : IsName word)
    (hfree : lowerCase (Bytes.ofChars word) ∉ reserved) : Usable (Bytes.ofChars word) := by
  have hne : Bytes.ofChars word ≠ [] := ofChars_ne_nil_of_isName hword
  have hread (loc : Location) : ofLine loc (jumpLine (Bytes.ofChars word)) =
      .ok [jump .jmp loc.current, reference (Bytes.ofChars word)] := by
    rw [lowerCase_ofChars] at hfree
    rw [ofLine_jumpLine hword, ofName_of_not_mem_reserved hfree]
  have htokens (position : UInt16) := Instruction.ofTokens_jump_reference hne position
  constructor
  case read => exact hread
  case fault =>
    intro verbose s number
    have horg : (Instruction.jump Opcode.jmp s.location.current
        (.label (Bytes.ofChars word))).isOrigin = false := rfl
    rw [Sweep.step_of_jump (hread s.location), htokens]
    show (Sweep.place _ number _ _).2 = _
    rw [Sweep.place_of_isOrigin horg, Sweep.noted_reach]
    show (if Sweep.addressSpace < s.reach + 2 then _ else _ : Sweep × Option Fault).2 = _
    split <;> rfl
  case placed =>
    intro a source p n hparse hline
    obtain ⟨-, s', hs', rfl⟩ := Assembler.parse_eq_ok_iff.mp hparse
    obtain ⟨s, hs⟩ := Assembler.exists_after_take n hs'
    have hon : Sweep.instructionOn? s.location (jumpLine (Bytes.ofChars word)) =
        some (.jump Opcode.jmp s.location.current (.label (Bytes.ofChars word))) :=
      Sweep.instructionOn?_eq (hread s.location) (htokens s.location.current)
    exact ⟨_, Assembler.exists_statement_of_line hs' hline hs hon rfl, rfl, rfl⟩
  case resolved =>
    intro a source p e st opcode position hparse he hname hst hjump
    obtain ⟨-, s, hs, rfl⟩ := Assembler.parse_eq_ok_iff.mp hparse
    obtain rfl : position = st.address := Assembler.position_eq_address hs hst hjump
    obtain ⟨s₀, hs₀⟩ := Assembler.exists_after_take 0 hs
    obtain ⟨predefined, htable, -⟩ := Assembler.eq_start_of_after_nil hs₀
    obtain ⟨d, hd, hlast⟩ := LabelDefinition.exists_isLast he
    rw [hname] at hd
    have hfind : s.labels.find? (Bytes.ofChars word) = some d.address := by
      obtain ⟨before, later, hsplit, hlater⟩ := hlast
      rw [(Assembler.tracks_of_after htable hs).labels, hsplit, ← hd,
        LabelDefinition.binding_of_last hlater]
    have hjumps : Instruction.JumpsTo s.labels d.address (.label (Bytes.ofChars word)) := hfind
    refine ⟨d, hd, hlast, rfl, Instruction.resolve_of_jumpsTo hjumps, ?_⟩
    rw [hjump, Instruction.encode_jump hjumps]
    rfl

theorem unusable_of_isName {word : List Char} (hword : IsName word)
    (hreserved : lowerCase (Bytes.ofChars word) ∈ reserved) : Unusable (Bytes.ofChars word) := by
  have hlower := hreserved
  rw [lowerCase_ofChars] at hlower
  have hrefused (verbose : Bool) (s : Sweep) (number : Nat) :
      (s.step verbose number (jumpLine (Bytes.ofChars word))).2 = some .invalidParameter := by
    have href : (ofName s.location word).kind ≠ .reference :=
      kind_ne_of_reserved (by decide) hlower
    have hnumber : (ofName s.location word).kind ≠ .number :=
      kind_ne_of_reserved (by decide) hlower
    rw [Sweep.step_of_jump (ofLine_jumpLine hword),
      Instruction.ofTokens_jump_of_kind href hnumber]
  constructor
  case unread =>
    intro loc line tokens h
    exact reference_not_mem h hreserved
  case other =>
    intro loc
    exact ⟨_, ofLine_jumpLine hword, kind_ofName_of_reserved hlower⟩
  case refused => exact hrefused
  case never =>
    intro a source p hparse hmem
    obtain ⟨-, s', hs', -⟩ := Assembler.parse_eq_ok_iff.mp hparse
    obtain ⟨n, hline⟩ := List.mem_iff_getElem?.mp hmem
    obtain ⟨s₁, hs₁⟩ := Assembler.exists_after_take (n + 1) hs'
    obtain ⟨s, -, hadv⟩ := Assembler.advances_of_after_take hs₁ hline
    -- the step has a fault, but the line was accepted
    have hstep := hrefused a.verbose s (n + 1)
    rw [Sweep.step_of_advances hadv] at hstep
    cases hstep

/-- **Which labels can be used.**  A name that a line can define as a label can be used exactly if
its lower case is not reserved.  If it is reserved, then nothing refers to the label. -/
theorem label_usable_iff (loc : Location) (name : Bytes)
    (hdefined : ofLine loc (name ++ [Bytes.ofAscii ':']) = .ok [label name]) :
    (Usable name ↔ lowerCase name ∉ reserved) ∧ (lowerCase name ∈ reserved → Unusable name) := by
  obtain ⟨word, hword, hname, -⟩ :=
    exists_isName_of_mem hdefined List.mem_cons_self (.inl rfl)
  obtain rfl : name = Bytes.ofChars word := hname
  refine ⟨⟨?_, usable_of_isName hword⟩, unusable_of_isName hword⟩
  intro husable hreserved
  have hread := husable.read loc
  exact (unusable_of_isName hword hreserved).unread loc _ _ hread (by simp)

/-- A label outside ASCII that can be used, and two that cannot: a mnemonic in other letters, and a
name with a dotted capital that becomes a register. -/
theorem label_usable_iff_names :
    Usable (Bytes.ofString "Fußnote_2") ∧ Unusable (Bytes.ofString "Hlt") ∧
      Unusable (Bytes.ofString "sİ") := by
  have hnames : ∀ name ∈ [Bytes.ofString "Fußnote_2", Bytes.ofString "Hlt", Bytes.ofString "sİ"],
      ofLine ⟨0, 0⟩ (name ++ [Bytes.ofAscii ':']) = .ok [label name] := by decide +kernel
  exact ⟨(label_usable_iff ⟨0, 0⟩ _ (hnames _ (by decide))).1.mpr (by decide +kernel),
    (label_usable_iff ⟨0, 0⟩ _ (hnames _ (by decide))).2 (by decide +kernel),
    (label_usable_iff ⟨0, 0⟩ _ (hnames _ (by decide))).2 (by decide +kernel)⟩

/-- A label with the name of a register: a source that defines it is accepted, but not if it jumps
to it. -/
theorem register_label_refused :
    let ax := Bytes.ofString "ax"
    ofLine ⟨0, 0⟩ (Bytes.ofString "ax:") = .ok [label ax] ∧
      ofLine ⟨0, 0⟩ (Bytes.ofString "jmp ax") =
        .ok [jump .jmp 0, { kind := .register16, text := ax }] ∧
      ({} : Assembler).assemble (Bytes.ofString "ax: hlt") = .ok [0xF4] ∧
      ({} : Assembler).assemble (Bytes.ofString "ax: jmp ax") =
        .error (.onLine 1 (Bytes.ofString "ax: jmp ax") .invalidParameter) :=
  ⟨by decide +kernel, by decide +kernel, by decide +kernel, by decide +kernel⟩

end BootSector
