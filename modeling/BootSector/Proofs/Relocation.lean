import BootSector.Proofs.Locality
import BootSector.Proofs.Placement

/-!
# Relocation

A source that names no address can be assembled anywhere.  When two runs over it start `δ` apart,
they stay `δ` apart: on every line the location counters and the addresses of the names differ by
`δ`, and the statements are the same, moved by `δ` (`Sweep.Relocated`, kept by every line in
`Relocated.advances`).

Then the machine code is the same but for the words that hold addresses.  A jump keeps its
displacement, and with it its range, since its position and its target move together modulo 2¹⁶
(`encode_moved`); `Relocates` says which bytes differ and how.
-/

namespace BootSector

/-- **Two results correspond**: they are the same error, or both there and related. -/
inductive Corresponds {ε α : Type} (R : α → α → Prop) : Except ε α → Except ε α → Prop where
  | error (e : ε) : Corresponds R (.error e) (.error e)
  | ok {x y : α} (h : R x y) : Corresponds R (.ok x) (.ok y)

theorem Corresponds.error_or_ok {ε α : Type} {R : α → α → Prop} {x y : Except ε α}
    (h : Corresponds R x y) :
    (∃ e, x = .error e ∧ y = .error e) ∨ ∃ a b, x = .ok a ∧ y = .ok b ∧ R a b := by
  cases h with
  | error e => exact .inl ⟨e, rfl, rfl⟩
  | ok hab => exact .inr ⟨_, _, rfl, rfl, hab⟩

namespace Instruction

variable {δ : UInt16} {strict : Bool} {labels labels' : LabelTable}

/-- Does the instruction jump to no given address, at any depth of repetition? -/
def isSymbolic : Instruction → Bool
  | times _ body => body.isSymbolic
  | jump _ _ (.address _) => false
  | _ => true

/-- **The bytes of an instruction in two places that are `δ` apart.**  The word of an `offset` and
the operand of a move of an address differ by `δ`, in every copy; all other bytes are the same. -/
def Relocates (δ : UInt16) : Instruction → Bytes → Bytes → Prop
  | times count body, code, code' => ∃ once once', body.Relocates δ once once' ∧
      code = (List.replicate count.toNat once).flatten ∧
      code' = (List.replicate count.toNat once').flatten
  | offset .., code, code' =>
    ∃ word, code = Bytes.littleEndian word ∧ code' = Bytes.littleEndian (word + δ)
  | moveAddress .., code, code' =>
    ∃ opcode word, code = opcode :: Bytes.littleEndian word ∧
      code' = opcode :: Bytes.littleEndian (word + δ)
  | _, code, code' => code' = code

theorem displacement_moved (position target : UInt16) :
    displacement (position + δ) (target + δ) = displacement position target := by
  have hgap : target + δ - (position + δ + jumpLength) = target - (position + jumpLength) := by
    grind
  rw [displacement, hgap, displacement]

theorem inRange_moved (position target : UInt16) :
    inRange (position + δ) (target + δ) = inRange position target := by
  have hgap : target + δ - (position + δ + jumpLength) = target - (position + jumpLength) := by
    grind
  rw [inRange, distance, hgap, inRange, distance]

theorem corresponds_resolve (hlabels : ∀ name, labels'.find? name = (labels.find? name).map (· + δ))
    (name : Bytes) : Corresponds (fun addr addr' => addr' = addr + δ) (labels.resolve name)
      (labels'.resolve name) := by
  unfold LabelTable.resolve
  rw [hlabels]
  cases labels.find? name with
  | none => exact .error _
  | some addr => exact .ok rfl

/-- **The encoding of an instruction in two places.** -/
theorem encode_moved (hlabels : ∀ name, labels'.find? name = (labels.find? name).map (· + δ))
    {i : Instruction} (hi : i.isSymbolic = true) :
    Corresponds (i.Relocates δ) (i.encode strict labels) ((i.moved δ).encode strict labels') := by
  induction i with
  | times count body ih =>
    rcases (ih hi).error_or_ok with ⟨e, hx, hy⟩ | ⟨once, once', hx, hy, honce⟩
    · simp only [moved, encode, hx, hy]
      exact .error e
    · simp only [moved, encode, hx, hy]
      exact .ok ⟨once, once', honce, rfl, rfl⟩
  | offset label amount =>
    rcases (corresponds_resolve hlabels label).error_or_ok with ⟨e, hx, hy⟩ | ⟨addr, _, hx, hy, rfl⟩
    · simp only [moved, encode, hx, hy]
      exact .error e
    · simp only [moved, encode, hx, hy]
      refine .ok ⟨_, rfl, ?_⟩
      congr 1
      grind
  | moveAddress register label =>
    rcases (corresponds_resolve hlabels label).error_or_ok with ⟨e, hx, hy⟩ | ⟨addr, _, hx, hy, rfl⟩
    · simp only [moved, encode, hx, hy]
      exact .error e
    · simp only [moved, encode, hx, hy]
      exact .ok ⟨_, addr, rfl, rfl⟩
  | jump opcode position target =>
    cases target with
    | address addr => cases hi
    | label name =>
      rcases (corresponds_resolve hlabels name).error_or_ok with
        ⟨e, hx, hy⟩ | ⟨addr, _, hx, hy, rfl⟩
      · simp only [moved, encode, JumpTarget.resolve, hx, hy]
        exact .error e
      · -- position and target move together, so range and displacement stay
        simp only [moved, encode, JumpTarget.resolve, hx, hy, inRange_moved, displacement_moved]
        split
        · exact .error _
        · exact .ok rfl
  | absent => exact .error _
  | _ => exact .ok rfl

end Instruction

/-! ### The second sweep -/

/-- **The statement in a place that is `δ` further on.** -/
def Statement.moved (δ : UInt16) (st : Statement) : Statement :=
  { st with address := st.address + δ, instruction := st.instruction.moved δ }

@[simp] theorem Statement.moved_length (δ : UInt16) (st : Statement) :
    (st.moved δ).length = st.length := Instruction.moved_length st.instruction

namespace Program

variable {δ : UInt16} {p q : Program}

/-- The bytes of some statements in two places that are `δ` apart, statement by statement. -/
def Relocates (δ : UInt16) : List Statement → Bytes → Bytes → Prop
  | [], code, code' => code = [] ∧ code' = []
  | st :: rest, code, code' => ∃ own own' more more', st.instruction.Relocates δ own own' ∧
      Relocates δ rest more more' ∧ code = own ++ more ∧ code' = own' ++ more'

theorem encodeOnto_moved (hstrict : q.strict = p.strict)
    (hlabels : ∀ name, q.labels.find? name = (p.labels.find? name).map (· + δ))
    {sts : List Statement} (hsts : ∀ st ∈ sts, st.instruction.isSymbolic = true)
    (done done' : List Bytes) :
    Corresponds (fun code code' => ∃ more more', Relocates δ sts more more' ∧
        code = done.reverse.flatten ++ more ∧ code' = done'.reverse.flatten ++ more')
      (p.encodeOnto done sts) (q.encodeOnto done' (sts.map (Statement.moved δ))) := by
  induction sts generalizing done done' with
  | nil => exact .ok ⟨[], [], ⟨rfl, rfl⟩, (List.append_nil _).symm, (List.append_nil _).symm⟩
  | cons st sts ih =>
    have hst : Corresponds (st.instruction.Relocates δ)
        (st.instruction.encode p.strict p.labels)
        ((st.instruction.moved δ).encode p.strict q.labels) :=
      Instruction.encode_moved hlabels (hsts st List.mem_cons_self)
    rw [List.map_cons, encodeOnto, encodeOnto, encodeStatement, encodeStatement, hstrict]
    rcases hst.error_or_ok with ⟨e, hx, hy⟩ | ⟨own, own', hx, hy, hown⟩
    · -- both errors stand on the line of the statement, which does not move
      simp only [Statement.moved, hx, hy]
      exact .error _
    · simp only [Statement.moved, hx, hy]
      have hrest := ih (fun st' hst' => hsts st' (List.mem_cons_of_mem st hst')) (own :: done)
        (own' :: done')
      rcases hrest.error_or_ok with
        ⟨e, hx, hy⟩ | ⟨code, code', hx, hy, more, more', hmore, rfl, rfl⟩
      · rw [hx, hy]
        exact .error e
      · rw [hx, hy]
        refine .ok ⟨own ++ more, own' ++ more', ⟨own, own', more, more', hown, hmore, rfl, rfl⟩, ?_⟩
        simp

/-- **Two programs are `δ` apart.** -/
structure Relocated (δ : UInt16) (p q : Program) : Prop where
  /-- The statements stand on the same lines, at addresses that differ by `δ`, and are the same
  instructions, with the positions of jumps taken along. -/
  statements : q.statements = p.statements.map (Statement.moved δ)
  /-- The statements have the same lengths. -/
  lengths : q.statements.map Statement.length = p.statements.map Statement.length
  /-- The same names are bound, to addresses that differ by `δ`. -/
  labels (name : Bytes) : q.labels.find? name = (p.labels.find? name).map (· + δ)
  /-- In either mode, both programs fail with the same error, or both have code, which differs only
  in the words that hold addresses, and there by `δ`. -/
  encode (strict : Bool) : Corresponds (Relocates δ p.statements)
    (Program.encode { p with strict := strict }) (Program.encode { q with strict := strict })

end Program

/-! ### The first sweep -/

namespace Sweep

/-- **The line can be read anywhere**: it names no location counter, starts no segment and jumps to
no given address. -/
structure Relocatable (line : Bytes) : Prop where
  counterFree : Token.CounterFree line
  isOrigin (loc : Location) (i : Instruction) : instructionOn? loc line = some i →
    i.isOrigin = false
  isSymbolic (loc : Location) (i : Instruction) : instructionOn? loc line = some i →
    i.isSymbolic = true

/-- **Two states of the sweep are `δ` apart.** -/
structure Relocated (δ : UInt16) (s t : Sweep) : Prop where
  current : t.location.current = s.location.current + δ
  labels (name : Bytes) : t.labels.find? name = (s.labels.find? name).map (· + δ)
  statements : t.statements.toList = s.statements.toList.map (Statement.moved δ)

variable {δ : UInt16} {v w : Bool} {s s' t t' : Sweep} {number : Nat} {line : Bytes}
  {tokens : List Token}

theorem definedLabel?_moved (tokens : List Token) :
    Token.definedLabel? (tokens.map (Token.moved δ)) = Token.definedLabel? tokens := by
  cases tokens with
  | nil => rfl
  | cons first rest =>
    rw [List.map_cons, Token.definedLabel?, Token.moved_kind, Token.moved_text,
      Token.definedLabel?]

theorem behindLabel_moved (tokens : List Token) :
    Token.behindLabel (tokens.map (Token.moved δ)) =
      (Token.behindLabel tokens).map (Token.moved δ) := by
  cases tokens with
  | nil => rfl
  | cons first rest =>
    rw [List.map_cons, Token.behindLabel, Token.moved_kind, Token.behindLabel]
    split <;> rfl

/-- A label on the line is bound to addresses that are `δ` apart. -/
theorem Relocated.entered (h : Relocated δ s t) (tokens : List Token) :
    Relocated δ (s.entered v number line tokens)
      (t.entered w number line (tokens.map (Token.moved δ))) := by
  constructor
  · simpa using h.current
  · intro name
    rw [entered_labels, entered_labels, definedLabel?_moved]
    cases Token.definedLabel? tokens with
    | none => exact h.labels name
    | some label =>
      simp only [LabelTable.find?_bind, h.labels, h.current]
      split <;> rfl
  · simpa using h.statements

/-- **A line keeps two states `δ` apart.** -/
theorem Relocated.advances (h : Relocated δ s t) (hline : Relocatable line)
    (hs : Advances v s number line s') (ht : Advances w t number line t') : Relocated δ s' t' := by
  have hread {tokens tokens' : List Token} (hx : Token.ofLine s.location line = .ok tokens)
      (hy : Token.ofLine t.location line = .ok tokens') :
      tokens' = tokens.map (Token.moved δ) := by
    rw [Token.ofLine_moved hline.counterFree h.current, hx] at hy
    exact (Except.ok.inj hy).symm
  cases hs with
  | bare htokens hlabel hrest =>
    cases ht with
    | bare htokens' =>
      rw [hread htokens htokens']
      exact h.entered _
    | org htokens' _ hi | place htokens' _ hi =>
      rw [hread htokens htokens', behindLabel_moved, hrest] at hi
      cases hi
  | org htokens hlabel hi => cases hline.isOrigin _ _ (instructionOn?_eq htokens hi)
  | @place tokens i htokens hlabel hi horg hfits =>
    cases ht with
    | bare htokens' _ hrest =>
      rw [hread htokens htokens', behindLabel_moved, List.map_eq_nil_iff] at hrest
      rw [hrest] at hi
      cases hi
    | org htokens' _ hi' => cases hline.isOrigin _ _ (instructionOn?_eq htokens' hi')
    | @place tokens' i' htokens' _ hi' =>
      obtain rfl := hread htokens htokens'
      rw [behindLabel_moved, Instruction.ofTokens_moved, hi] at hi'
      obtain rfl : i.moved δ = i' := Except.ok.inj hi'
      have hentered : Relocated δ (s.entered v number line tokens)
          (t.entered w number line (tokens.map (Token.moved δ))) := h.entered tokens
      constructor
      · simp only [h.current, Instruction.moved_length]
        grind
      · exact hentered.labels
      · simp [h.statements, h.current, Statement.moved]

end Sweep

namespace Assembler

variable {a b : Assembler} {lines : List Bytes} {s t : Sweep}

/-- Two runs over the same lines stay as far apart as they started. -/
theorem relocated_of_after (ha : a.predefines = []) (hb : b.predefines = [])
    (hlines : ∀ line ∈ lines, Sweep.Relocatable line) (hs : a.after lines = some s)
    (ht : b.after lines = some t) : Sweep.Relocated (b.origin - a.origin) s t := by
  revert hlines t
  refine after_induction (P := fun lines s => ∀ {t}, (∀ line ∈ lines, Sweep.Relocatable line) →
    b.after lines = some t → Sweep.Relocated (b.origin - a.origin) s t) ?_ ?_ hs
  · intro labels hlabels t _ ht
    obtain ⟨labels', hlabels', rfl⟩ := eq_start_of_after_nil ht
    -- nothing is predefined, so both tables are empty
    rw [ha] at hlabels
    rw [hb] at hlabels'
    obtain rfl : LabelTable.empty = labels := Except.ok.inj hlabels
    obtain rfl : LabelTable.empty = labels' := Except.ok.inj hlabels'
    constructor
    · show b.origin = a.origin + (b.origin - a.origin)
      grind
    · exact fun name => rfl
    · rfl
  · intro lines s line s' _ ih hadv t' hlines ht'
    obtain ⟨t, ht, hadv'⟩ := advances_of_after ht'
    have hbefore : ∀ line' ∈ lines, Sweep.Relocatable line' := fun line' hline' =>
      hlines line' (List.mem_append_left _ hline')
    have hline : Sweep.Relocatable line :=
      hlines line (List.mem_append_right _ (List.mem_singleton.mpr rfl))
    exact (ih hbefore ht).advances hline hadv hadv'

/-- No statement jumps to a given address if no line does. -/
theorem isSymbolic_of_after (hlines : ∀ line ∈ lines, Sweep.Relocatable line)
    (hs : a.after lines = some s) {st : Statement} (hst : st ∈ s.statements.toList) :
    st.instruction.isSymbolic = true := by
  obtain ⟨i, hi⟩ := List.mem_iff_getElem?.mp hst
  obtain ⟨n, s₀, -, hline, -, -, hplaced⟩ := exists_placedIn hs hi
  obtain ⟨tokens, htokens, hinstruction⟩ := hplaced.reads
  exact (hlines st.line (List.mem_of_getElem? hline)).isSymbolic _ _
    (Sweep.instructionOn?_eq htokens hinstruction)

/-- **Relocation.**  A source whose lines can be read anywhere, assembled at two origins without
predefinitions, gives two programs that are as far apart as the origins. -/
theorem relocated_of_parse (a b : Assembler) (source : Bytes) (p q : Program)
    (ha : a.predefines = []) (hb : b.predefines = [])
    (hlines : ∀ line ∈ (Reading.ofBytes source).lines, Sweep.Relocatable line)
    (hp : a.parse source = .ok p) (hq : b.parse source = .ok q) :
    p.Relocated (b.origin - a.origin) q := by
  obtain ⟨-, s, hs, rfl⟩ := parse_eq_ok_iff.mp hp
  obtain ⟨-, t, ht, rfl⟩ := parse_eq_ok_iff.mp hq
  have hst := relocated_of_after ha hb hlines hs ht
  constructor
  case statements => exact hst.statements
  case lengths => simp [hst.statements, Function.comp_def]
  case labels => exact hst.labels
  case encode =>
    intro strict
    have hencode := Program.encodeOnto_moved (p := ⟨s.statements.toList, s.labels, strict⟩)
      (q := ⟨t.statements.toList, t.labels, strict⟩) rfl hst.labels
      (fun st => isSymbolic_of_after hlines hs) [] []
    rw [← hst.statements] at hencode
    rcases hencode.error_or_ok with ⟨e, hx, hy⟩ | ⟨_, _, hx, hy, code, code', hcode, rfl, rfl⟩
    · rw [Program.encode, hx, Program.encode, hy]
      exact .error e
    · rw [Program.encode, hx, Program.encode, hy]
      exact .ok hcode

/-- A program below the end of the address space and the same program behind its start: a move of an
address, a jump, a repeated `offset`, and a string and a comment that hold a `$`. -/
theorem relocated_across_end :
    ∃ (source : Bytes) (p q : Program) (code code' : Bytes),
      ({ origin := 0xFFF0 } : Assembler).parse source = .ok p ∧
      ({ origin := 0x10, strict := true } : Assembler).parse source = .ok q ∧
      p.Relocated 0x20 q ∧ Program.Relocates 0x20 p.statements code code' ∧
      code = [0xBE, 0xF9, 0xFF, 0x74, 0xFB, 0xFA, 0xFF, 0xFA, 0xFF, 0x24] ∧
      code' = [0xBE, 0x19, 0x00, 0x74, 0xFB, 0x1A, 0x00, 0x1A, 0x00, 0x24] := by
  let a : Assembler := { origin := 0xFFF0 }
  let b : Assembler := { origin := 0x10, strict := true }
  let source := Bytes.ofString "top: mov si msg\njz top\ntimes 2 offset msg 1\nmsg: \"$\" ; $$"
  let top := Bytes.ofString "top"
  let msg := Bytes.ofString "msg"
  -- the program at an origin and with the given mode
  let program (origin : UInt16) (strict : Bool) : Program :=
    ⟨[⟨1, Bytes.ofString "top: mov si msg", origin, .moveAddress 6 msg⟩,
      ⟨2, Bytes.ofString "jz top", origin + 3, .jump 0x74 (origin + 3) (.label top)⟩,
      ⟨3, Bytes.ofString "times 2 offset msg 1", origin + 5, .times 2 (.offset msg 1)⟩,
      ⟨4, Bytes.ofString "msg: \"$\" ; $$", origin + 9, .text [0x24]⟩],
      (LabelTable.empty.bind top origin).bind msg (origin + 9), strict⟩
  have hp : a.parse source = .ok (program 0xFFF0 false) := rfl
  have hq : b.parse source = .ok (program 0x10 true) := rfl
  have hanywhere {line : Bytes} {i : Location → Instruction} (hfree : Token.CounterFree line)
      (hon : ∀ loc, Sweep.instructionOn? loc line = some (i loc))
      (hi : ∀ loc, (i loc).isOrigin = false ∧ (i loc).isSymbolic = true) :
      Sweep.Relocatable line := by
    refine ⟨hfree, fun loc j hj => ?_, fun loc j hj => ?_⟩
    · exact Option.some.inj ((hon loc).symm.trans hj) ▸ (hi loc).1
    · exact Option.some.inj ((hon loc).symm.trans hj) ▸ (hi loc).2
  have hlines : ∀ line ∈ (Reading.ofBytes source).lines, Sweep.Relocatable line := by
    show ∀ line ∈ [Bytes.ofString "top: mov si msg", Bytes.ofString "jz top",
      Bytes.ofString "times 2 offset msg 1", Bytes.ofString "msg: \"$\" ; $$"], _
    simp only [List.forall_mem_cons, List.not_mem_nil, false_implies, implies_true, and_true]
    refine ⟨?_, ?_, ?_, ?_⟩
    · exact hanywhere (by decide) (fun _ => rfl) fun _ => ⟨rfl, rfl⟩
    · exact hanywhere (by decide) (fun _ => rfl) fun _ => ⟨rfl, rfl⟩
    · exact hanywhere (by decide) (fun _ => rfl) fun _ => ⟨rfl, rfl⟩
    · exact hanywhere (by decide) (fun _ => rfl) fun _ => ⟨rfl, rfl⟩
  have hδ : b.origin - a.origin = 0x20 := by decide
  have hrelocated := relocated_of_parse a b source _ _ rfl rfl hlines hp hq
  rw [hδ] at hrelocated
  have hcode : Program.encode (program 0xFFF0 true) =
      .ok [0xBE, 0xF9, 0xFF, 0x74, 0xFB, 0xFA, 0xFF, 0xFA, 0xFF, 0x24] := rfl
  have hcode' : Program.encode (program 0x10 true) =
      .ok [0xBE, 0x19, 0x00, 0x74, 0xFB, 0x1A, 0x00, 0x1A, 0x00, 0x24] := rfl
  have hboth : Corresponds (Program.Relocates 0x20 (program 0xFFF0 false).statements)
      (Program.encode (program 0xFFF0 true)) (Program.encode (program 0x10 true)) :=
    hrelocated.encode true
  rw [hcode, hcode'] at hboth
  cases hboth with
  | ok hrelocates => exact ⟨source, _, _, _, _, hp, hq, hrelocated, hrelocates, rfl, rfl⟩

end Assembler

end BootSector
