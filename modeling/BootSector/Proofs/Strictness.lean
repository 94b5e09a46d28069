import BootSector.Proofs.References

/-!
# Strict mode

Strict mode refuses jumps that are out of range and changes nothing else.  For an instruction this
is `encode_true_of_not_overshoots` and `encode_of_overshoots`: a jump that overshoots has an address
to go to, so lenient mode always has bytes for it.

A program is a matter of order.  The two second sweeps walk over the same statements, since the mode
plays no part in the first sweep, and each stops at its first refusal.  Where they differ, strict
mode stops at a jump that overshoots, and lenient mode has the bytes of every statement up to it.
-/

namespace BootSector

/-! ### Instructions -/

namespace Instruction

variable {labels : LabelTable} {i : Instruction}

theorem encode_true_of_not_overshoots (h : ¬ i.Overshoots labels) :
    i.encode true labels = i.encode false labels := by
  induction i with
  | times count body ih =>
    -- a repetition overshoots exactly if its body does
    have hbody : ¬ body.Overshoots labels := h
    rw [encode, encode, ih hbody]
  | jump opcode position target =>
    rcases jumpsTo_or_missing labels target with ⟨addr, haddr⟩ | ⟨name, rfl, hnone⟩
    · have hland : ∃ d, Lands position addr d := by
        by_contra hfar
        exact h ⟨position, target, addr, rfl, haddr, hfar⟩
      have hrange : inRange position addr = true := inRange_iff.mpr hland
      rw [encode_jump haddr, encode_jump haddr, hrange]
      rfl
    · -- without an address there is no distance to look at
      simp only [encode, JumpTarget.resolve, LabelTable.resolve, hnone]
  | _ => rfl

theorem encode_of_overshoots (h : i.Overshoots labels) :
    (∃ code, i.encode false labels = .ok code) ∧
      i.encode true labels = .error .displacementOutOfRange := by
  induction i with
  | times count body ih =>
    have hbody : body.Overshoots labels := h
    obtain ⟨⟨once, honce⟩, herror⟩ := ih hbody
    refine ⟨⟨(List.replicate count.toNat once).flatten, ?_⟩, ?_⟩
    · simp only [encode, honce]
    · simp only [encode, herror]
  | jump opcode position target =>
    obtain ⟨position', target', addr, hjump, haddr, hfar⟩ := h
    obtain ⟨rfl, rfl⟩ := Prod.mk.inj (Option.some.inj hjump)
    have hrange : inRange position addr = false := by
      rw [← Bool.not_eq_true, inRange_iff]
      exact hfar
    rw [encode_jump haddr, encode_jump haddr, hrange]
    exact ⟨⟨_, rfl⟩, rfl⟩
  | _ =>
    obtain ⟨_, _, _, hjump, -⟩ := h
    cases hjump

/-- Whatever strict mode encodes, lenient mode encodes to the same bytes. -/
theorem encode_false_of_encode_true {code : Bytes} (h : i.encode true labels = .ok code) :
    i.encode false labels = .ok code := by
  have hnear : ¬ i.Overshoots labels := by
    intro hover
    rw [(encode_of_overshoots hover).2] at h
    cases h
  rw [← encode_true_of_not_overshoots hnear, h]

end Instruction

/-! ### The second sweep -/

namespace Program

variable {p q : Program} {sts : List Statement} {st : Statement} {code : Bytes}

theorem encodeStatement_true_of_not_overshoots (h : ¬ st.instruction.Overshoots p.labels) :
    encodeStatement { p with strict := true } st =
      encodeStatement { p with strict := false } st := by
  simp only [encodeStatement, Instruction.encode_true_of_not_overshoots h]

theorem encodeStatement_true_of_overshoots (h : st.instruction.Overshoots p.labels) :
    encodeStatement { p with strict := true } st =
      .error (.onLine st.lineNo st.line .displacementOutOfRange) := by
  simp only [encodeStatement, (Instruction.encode_of_overshoots h).2]

theorem encodeStatement_false_of_true
    (h : encodeStatement { p with strict := true } st = .ok code) :
    encodeStatement { p with strict := false } st = .ok code := by
  rw [encodeStatement_eq_ok_iff] at h ⊢
  exact Instruction.encode_false_of_encode_true h

theorem encodeOnto_congr (h : ∀ st ∈ sts, q.encodeStatement st = p.encodeStatement st)
    (done : List Bytes) : q.encodeOnto done sts = p.encodeOnto done sts := by
  induction sts generalizing done with
  | nil => rfl
  | cons st sts ih =>
    have hst : q.encodeStatement st = p.encodeStatement st := h st List.mem_cons_self
    have hsts : ∀ st' ∈ sts, q.encodeStatement st' = p.encodeStatement st' :=
      fun st' hst' => h st' (List.mem_cons_of_mem st hst')
    rw [encodeOnto, encodeOnto, hst]
    cases p.encodeStatement st with
    | ok head => exact ih hsts (head :: done)
    | error e => rfl

theorem Encodes.lenient (h : Encodes { p with strict := true } sts code) :
    Encodes { p with strict := false } sts code := by
  induction h with
  | nil => exact .nil
  | cons hst hsts ih => exact .cons (encodeStatement_false_of_true hst) ih

/-- Strict mode stops at a jump that is out of range.  Up to the jump both modes have the same
bytes, and lenient mode has bytes for the jump as well. -/
def StopsAtJump (p : Program) : Prop :=
  ∃ before st after, p.statements = before ++ st :: after ∧
    (∀ st' ∈ before, ∃ code, encodeStatement { p with strict := true } st' = .ok code ∧
      encodeStatement { p with strict := false } st' = .ok code) ∧
    st.instruction.Overshoots p.labels ∧
    (∃ code, encodeStatement { p with strict := false } st = .ok code) ∧
    encode { p with strict := true } = .error (.onLine st.lineNo st.line .displacementOutOfRange)

/-- **Strict mode refines lenient mode**, for the program `p` that assembler `a` makes of a
source. -/
structure StrictRefines (a : Assembler) (source : Bytes) (p : Program) : Prop where
  /-- The first sweep gives the same program in both modes. -/
  parse (strict : Bool) : Assembler.parse { a with strict } source = .ok { p with strict }
  /-- What strict mode encodes, lenient mode encodes to the same bytes. -/
  bytes (code : Bytes) : encode { p with strict := true } = .ok code →
    encode { p with strict := false } = .ok code
  /-- If no jump is out of range, the two modes agree in bytes, errors and lines. -/
  agree : (∀ st ∈ p.statements, ¬ st.instruction.Overshoots p.labels) →
    encode { p with strict := true } = encode { p with strict := false }
  /-- Where the two modes differ, strict mode stops at a jump. -/
  differ : encode { p with strict := true } ≠ encode { p with strict := false } → p.StopsAtJump

theorem encode_false_of_encode_true (h : encode { p with strict := true } = .ok code) :
    encode { p with strict := false } = .ok code := by
  rw [encode_eq_ok_iff] at h ⊢
  exact h.lenient

theorem stopsAtJump_of_ne
    (hne : encode { p with strict := true } ≠ encode { p with strict := false }) :
    p.StopsAtJump := by
  cases hstrict : encode { p with strict := true } with
  | ok code =>
    rw [hstrict, encode_false_of_encode_true hstrict] at hne
    exact absurd rfl hne
  | error e =>
    obtain ⟨before, st, after, hsplit, hbefore, hst⟩ := encodeOnto_eq_error_iff.mp hstrict
    have hboth : ∀ st' ∈ before, ∃ code, encodeStatement { p with strict := true } st' = .ok code ∧
        encodeStatement { p with strict := false } st' = .ok code := by
      intro st' hst'
      obtain ⟨code, hcode⟩ := hbefore st' hst'
      exact ⟨code, hcode, encodeStatement_false_of_true hcode⟩
    have hover : st.instruction.Overshoots p.labels := by
      by_contra hnear
      -- otherwise lenient mode gets as far and stops there for the same reason
      have hlenient : encode { p with strict := false } = .error e := by
        refine encodeOnto_eq_error_iff.mpr ⟨before, st, after, hsplit, fun st' hst' => ?_, ?_⟩
        · obtain ⟨code, -, hcode⟩ := hboth st' hst'
          exact ⟨code, hcode⟩
        · rw [← encodeStatement_true_of_not_overshoots hnear, hst]
      rw [hstrict, hlenient] at hne
      exact hne rfl
    have hown : ∃ code, encodeStatement { p with strict := false } st = .ok code := by
      obtain ⟨code, hcode⟩ := (Instruction.encode_of_overshoots hover).1
      exact ⟨code, encodeStatement_eq_ok_iff.mpr hcode⟩
    rw [encodeStatement_true_of_overshoots hover] at hst
    exact ⟨before, st, after, hsplit, hboth, hover, hown, by rw [hstrict, ← hst]⟩

end Program

/-! ### Both modes -/

/-- **Strict mode refines lenient mode.**  An instruction, at any depth of repetition, gives the
same bytes or the same fault in both modes, unless lenient mode has bytes and the instruction holds
a jump that is out of range; then strict mode refuses it for that.  A program of a source that is
encoded in strict mode has the same bytes in lenient mode, and if no jump in it is out of range,
then the two modes agree altogether. -/
theorem strict_refines_lenient :
    (∀ (i : Instruction) (labels : LabelTable),
      ((∃ code, i.encode false labels = .ok code) → i.Overshoots labels →
        i.encode true labels = .error .displacementOutOfRange) ∧
      (¬ ((∃ code, i.encode false labels = .ok code) ∧ i.Overshoots labels) →
        i.encode true labels = i.encode false labels)) ∧
    ∀ (a : Assembler) (source : Bytes) (p : Program), a.parse source = .ok p →
      p.StrictRefines a source := by
  constructor
  · intro i labels
    refine ⟨fun _ hover => (Instruction.encode_of_overshoots hover).2, fun hnot => ?_⟩
    apply Instruction.encode_true_of_not_overshoots
    intro hover
    exact hnot ⟨(Instruction.encode_of_overshoots hover).1, hover⟩
  · intro a source p hparse
    obtain ⟨hread, s, hs, rfl⟩ := Assembler.parse_eq_ok_iff.mp hparse
    constructor
    case parse =>
      intro strict
      exact Assembler.parse_eq_ok_iff.mpr ⟨hread, s, hs, rfl⟩
    case bytes => exact fun code hcode => Program.encode_false_of_encode_true hcode
    case agree =>
      intro hnear
      exact Program.encodeOnto_congr
        (fun st hst => Program.encodeStatement_true_of_not_overshoots (hnear st hst)) []
    case differ => exact Program.stopsAtJump_of_ne

/-- A jump that is out of range under two repetitions, one of which makes no copies, and a missing
name behind it: strict mode stops at the jump and lenient mode at the name.  In another program the
jump is in range, and both modes give the same bytes. -/
theorem strict_refines_lenient_far_jump :
    ∃ (p near : Program) (far gone : Statement),
      ({} : Assembler).parse (Bytes.ofString
        "times 2 times 0 jmp 0x8000\nmov ax gone") = .ok p ∧
      p.statements = [far, gone] ∧ far.instruction.Overshoots p.labels ∧
      far.instruction.encode false p.labels = .ok [] ∧
      far.instruction.encode true p.labels = .error .displacementOutOfRange ∧
      gone.instruction.encode true p.labels = gone.instruction.encode false p.labels ∧
      (∀ code, Program.encode { p with strict := true } = .ok code →
        Program.encode { p with strict := false } = .ok code) ∧
      Program.encode { p with strict := false } =
        .error (.onLine 2 (Bytes.ofString "mov ax gone") (.labelMissing (Bytes.ofString "gone"))) ∧
      (∃ before st after, p.statements = before ++ st :: after ∧
        st.instruction.Overshoots p.labels ∧ Program.encode { p with strict := true } =
          .error (.onLine st.lineNo st.line .displacementOutOfRange)) ∧
      ({} : Assembler).parse (Bytes.ofString "top: hlt\njmp top") = .ok near ∧
      (∀ st ∈ near.statements, ¬ st.instruction.Overshoots near.labels) ∧
      Program.encode { near with strict := true } = .ok [0xF4, 0xEB, 0xFD] ∧
      Program.encode { near with strict := false } = .ok [0xF4, 0xEB, 0xFD] := by
  let farLine := Bytes.ofString "times 2 times 0 jmp 0x8000"
  let goneLine := Bytes.ofString "mov ax gone"
  let name := Bytes.ofString "gone"
  let far : Statement := ⟨1, farLine, 0, .times 2 (.times 0 (.jump 0xEB 0 (.address 0x8000)))⟩
  let gone : Statement := ⟨2, goneLine, 0, .moveAddress 0 name⟩
  let p : Program := ⟨[far, gone], .empty, false⟩
  have hparse : ({} : Assembler).parse
      (Bytes.ofString "times 2 times 0 jmp 0x8000\nmov ax gone") = .ok p := rfl
  have hover : far.instruction.Overshoots p.labels := by
    refine ⟨0, .address 0x8000, 0x8000, rfl, rfl, ?_⟩
    rintro ⟨d, hlow, hhigh, hland⟩
    have hland : ((0 : Int) + 2 + d) % 65536 = 32768 := hland
    omega
  have hstay : ¬ gone.instruction.Overshoots p.labels := by
    rintro ⟨_, _, _, hjump, -⟩
    cases hjump
  have hlenient : Program.encode { p with strict := false } =
      .error (.onLine 2 goneLine (.labelMissing name)) := rfl
  have hstrict : Program.encode { p with strict := true } =
      .error (.onLine 1 farLine .displacementOutOfRange) := rfl
  have hrefines := strict_refines_lenient.2 {} _ p hparse
  have hne : Program.encode { p with strict := true } ≠
      Program.encode { p with strict := false } := by
    rw [hlenient, hstrict]
    nofun
  obtain ⟨before, st, after, hsplit, -, hst, -, herror⟩ := hrefines.differ hne
  let top := Bytes.ofString "top"
  let halt : Statement := ⟨1, Bytes.ofString "top: hlt", 0, .simple 0xF4⟩
  let jump : Statement := ⟨2, Bytes.ofString "jmp top", 1, .jump 0xEB 1 (.label top)⟩
  let near : Program := ⟨[halt, jump], LabelTable.empty.bind top 0, false⟩
  have hnear : ({} : Assembler).parse (Bytes.ofString "top: hlt\njmp top") = .ok near := rfl
  have hrange : ∀ st ∈ near.statements, ¬ st.instruction.Overshoots near.labels := by
    intro st hst hover
    have herror := (Instruction.encode_of_overshoots hover).2
    rcases List.mem_cons.mp hst with rfl | hst
    · exact absurd herror (by decide)
    · obtain rfl := List.mem_singleton.mp hst
      exact absurd herror (by decide)
  have hcode : Program.encode { near with strict := true } = .ok [0xF4, 0xEB, 0xFD] := rfl
  exact ⟨p, near, far, gone, hparse, rfl, hover, rfl,
    (strict_refines_lenient.1 far.instruction p.labels).1 ⟨[], rfl⟩ hover,
    (strict_refines_lenient.1 gone.instruction p.labels).2 fun h => hstay h.2,
    hrefines.bytes, hlenient, ⟨before, st, after, hsplit, hst, herror⟩, hnear, hrange, hcode,
    (strict_refines_lenient.2 {} _ near hnear).bytes _ hcode⟩

end BootSector
