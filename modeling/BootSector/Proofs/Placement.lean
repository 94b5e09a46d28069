import BootSector.Proofs.Sweep
import BootSector.Proofs.Size

/-!
# Where statements are placed

The first sweep carries two counters: the location counter, a 16-bit word that wraps around, and the
reach, the true end of the segment's code, which may be 2¹⁶.  `reach_of_after` relates them.

* `PlacedIn s st` says that statement `st` is placed when the sweep is in state `s`;
  `exists_placedIn` finds this state for each statement of a program, in front of the statement's
  line and with exactly the earlier statements in it.
* `between` compares the states after `m` and after `n` lines.  The statements that came in between
  have line numbers in between, and if no segment starts there, the reach has grown by exactly their
  total length.
-/

namespace BootSector

/-- The exact total length of some statements. -/
def Statement.total : List Statement → Nat
  | [] => 0
  | st :: rest => st.length.toNat + Statement.total rest

@[simp] theorem Statement.total_nil : Statement.total [] = 0 := rfl

@[simp] theorem Statement.total_cons (st : Statement) (sts : List Statement) :
    Statement.total (st :: sts) = st.length.toNat + Statement.total sts := rfl

@[simp] theorem Statement.total_append (sts sts' : List Statement) :
    Statement.total (sts ++ sts') = Statement.total sts + Statement.total sts' := by
  induction sts with
  | nil => rw [List.nil_append, total_nil, Nat.zero_add]
  | cons st sts ih => rw [List.cons_append, total_cons, total_cons, ih, Nat.add_assoc]

/-- **The statement is placed in this state of the sweep**: its line is read at the location of the
state, which gives its instruction and its address, and its code still fits. -/
structure Sweep.PlacedIn (s : Sweep) (st : Statement) : Prop where
  /-- The instruction stands on the line, behind a label if there is one. -/
  reads : ∃ tokens, Token.ofLine s.location st.line = .ok tokens ∧
    Instruction.ofTokens (Token.behindLabel tokens) = .ok st.instruction
  /-- A line that starts a segment places no statement. -/
  isOrigin : st.instruction.isOrigin = false
  /-- The address is the location counter. -/
  address : st.address = s.location.current
  /-- The code ends inside the address space. -/
  fits : s.reach + st.length.toNat ≤ Sweep.addressSpace

namespace Assembler

variable {a : Assembler} {lines : List Bytes} {s s' : Sweep} {m n : Nat}

/-! ### Counters -/

/-- The reach stays inside the address space, and the location counter is the reach modulo 2¹⁶. -/
theorem reach_of_after (h : a.after lines = some s) :
    s.reach ≤ Sweep.addressSpace ∧ s.location.current.toNat = s.reach % Sweep.addressSpace := by
  -- the location counter wraps with the addition that ends exactly at 2¹⁶; the reach does not
  refine after_induction (P := fun _ s => s.reach ≤ Sweep.addressSpace ∧
    s.location.current.toNat = s.reach % Sweep.addressSpace) (fun labels _ => ?_) ?_ h
  · have hlt : a.origin.toNat < 65536 := a.origin.toNat_lt
    exact ⟨Nat.le_of_lt hlt, (Nat.mod_eq_of_lt hlt).symm⟩
  · rintro lines s line s' - ⟨hreach, hcurrent⟩ hadv
    cases hadv with
    | bare htokens hlabel hrest =>
      rw [Sweep.entered_reach, Sweep.entered_location]
      exact ⟨hreach, hcurrent⟩
    | @org tokens addr htokens hlabel hi =>
      have hlt : addr.toNat < 65536 := addr.toNat_lt
      exact ⟨Nat.le_of_lt hlt, (Nat.mod_eq_of_lt hlt).symm⟩
    | place htokens hlabel hi horg hfits =>
      refine ⟨hfits, ?_⟩
      show (s.location.current + _).toNat = _
      rw [UInt16.toNat_add, hcurrent]
      exact Nat.mod_add_mod _ _ _

/-- A statement that is not empty has the reach as its address. -/
theorem address_of_placedIn {st : Statement} (h : a.after lines = some s) (hst : s.PlacedIn st)
    (hne : st.length ≠ 0) :
    st.address.toNat = s.reach ∧ st.address.toNat + st.length.toNat ≤ 0x10000 := by
  have hpos : 0 < st.length.toNat := Nat.pos_of_ne_zero fun hz => hne (UInt16.toNat_inj.mp hz)
  have hfits : s.reach + st.length.toNat ≤ 65536 := hst.fits
  have hcurrent : s.location.current.toNat = s.reach % 65536 := (reach_of_after h).2
  have haddress : st.address.toNat = s.reach := by
    rw [hst.address, hcurrent, Nat.mod_eq_of_lt (by omega)]
  exact ⟨haddress, by rw [haddress]; exact hfits⟩

/-! ### Segments -/

/-- **The address of the segment that starts on line `n`**, if one does.  Lines are counted from
one; the first segment starts at the origin, in front of the first line, and any other with an
`org` line. -/
def segment? (a : Assembler) (lines : List Bytes) : Nat → Option UInt16
  | 0 => some a.origin
  | n + 1 =>
    match a.after (lines.take n), lines[n]? with
    | some s, some line =>
      match Sweep.instructionOn? s.location line with
      | some (.origin addr) => some addr
      | _ => none
    | _, _ => none

/-- No segment starts on a line strictly between the two. -/
def Unbroken (a : Assembler) (lines : List Bytes) (m n : Nat) : Prop :=
  ∀ k, m < k → k < n → a.segment? lines k = none

/-- The line behind the first `n` advances the state. -/
theorem advances_of_after_take {line : Bytes} (h : a.after (lines.take (n + 1)) = some s')
    (hline : lines[n]? = some line) :
    ∃ s, a.after (lines.take n) = some s ∧ s.Advances a.verbose (n + 1) line s' := by
  have hn : n < lines.length := (List.getElem?_eq_some_iff.mp hline).1
  have htake : lines.take (n + 1) = lines.take n ++ [line] := by
    rw [List.take_add_one, hline]
    rfl
  rw [htake] at h
  obtain ⟨s, hs, hadv⟩ := advances_of_after h
  rw [List.length_take, Nat.min_eq_left (Nat.le_of_lt hn)] at hadv
  exact ⟨s, hs, hadv⟩

/-- At the start of a segment the reach is its address. -/
theorem reach_of_segment? {addr : UInt16} (h : a.after (lines.take n) = some s)
    (hseg : a.segment? lines n = some addr) : s.reach = addr.toNat := by
  cases n with
  | zero =>
    obtain rfl : a.origin = addr := Option.some.inj hseg
    obtain ⟨labels, -, rfl⟩ := eq_start_of_after_nil h
    rfl
  | succ n =>
    rw [segment?] at hseg
    split at hseg
    · rename_i s₀ line hs₀ hline
      obtain ⟨s₁, hs₁, hadv⟩ := advances_of_after_take h hline
      obtain rfl : s₁ = s₀ := Option.some.inj (hs₁.symm.trans hs₀)
      split at hseg
      · rename_i addr' hon
        obtain rfl : addr' = addr := Option.some.inj hseg
        cases hadv with
        | bare htokens hlabel hrest =>
          rw [Sweep.instructionOn?, htokens] at hon
          simp only [hrest] at hon
          cases hon
        | org htokens hlabel hi =>
          rw [Sweep.instructionOn?_eq htokens hi] at hon
          cases hon
          rfl
        | place htokens hlabel hi horg hfits =>
          rw [Sweep.instructionOn?_eq htokens hi] at hon
          cases hon
          cases horg
      · cases hseg
    · cases hseg

/-- A line that places a statement starts no segment. -/
theorem segment?_of_placedIn {st : Statement} (h : a.after (lines.take n) = some s)
    (hline : lines[n]? = some st.line) (hst : s.PlacedIn st) :
    a.segment? lines (n + 1) = none := by
  obtain ⟨tokens, htokens, hi⟩ := hst.reads
  have hon : Sweep.instructionOn? s.location st.line = some st.instruction :=
    Sweep.instructionOn?_eq htokens hi
  have horg := hst.isOrigin
  rw [segment?, h, hline]
  simp only [hon]
  split
  · rename_i hinstruction
    rw [Option.some.inj hinstruction] at horg
    cases horg
  · rfl

/-! ### Statements -/

/-- **Every statement was placed**: in front of its line, in a state that holds exactly the
statements before it. -/
theorem exists_placedIn (h : a.after lines = some s') {i : Nat} {st : Statement}
    (hst : s'.statements.toList[i]? = some st) :
    ∃ n s, st.lineNo = n + 1 ∧ lines[n]? = some st.line ∧ a.after (lines.take n) = some s ∧
      s.statements.toList = s'.statements.toList.take i ∧ s.PlacedIn st := by
  revert hst i st
  refine after_induction (P := fun lines s' => ∀ {i : Nat} {st : Statement},
    s'.statements.toList[i]? = some st → ∃ n s, st.lineNo = n + 1 ∧ lines[n]? = some st.line ∧
      a.after (lines.take n) = some s ∧ s.statements.toList = s'.statements.toList.take i ∧
      s.PlacedIn st) (fun labels _ i st hst => ?_) ?_ h
  · cases hst
  · intro lines s line s' hs ih hadv i st hst
    -- a statement that was there before keeps its line and its state
    have hold : s.statements.toList[i]? = some st → ∃ n s₀, st.lineNo = n + 1 ∧
        (lines ++ [line])[n]? = some st.line ∧ a.after ((lines ++ [line]).take n) = some s₀ ∧
        s₀.statements.toList = s.statements.toList.take i ∧ s₀.PlacedIn st := by
      intro hst
      obtain ⟨n, s₀, hlineNo, hline, hs₀, htake, hplaced⟩ := ih hst
      have hn : n < lines.length := (List.getElem?_eq_some_iff.mp hline).1
      refine ⟨n, s₀, hlineNo, ?_, ?_, htake, hplaced⟩
      · rw [List.getElem?_append_left hn, hline]
      · rw [List.take_append_of_le_length (Nat.le_of_lt hn), hs₀]
    cases hadv with
    | bare htokens hlabel hrest =>
      rw [Sweep.entered_statements] at hst ⊢
      exact hold hst
    | org htokens hlabel hi =>
      simp only [Sweep.entered_statements] at hst ⊢
      exact hold hst
    | @place tokens instr htokens hlabel hi horg hfits =>
      simp only [Array.toList_push] at hst ⊢
      rcases Nat.lt_or_ge i s.statements.toList.length with hlt | hge
      · rw [List.getElem?_append_left hlt] at hst
        rw [List.take_append_of_le_length (Nat.le_of_lt hlt)]
        exact hold hst
      · -- the new statement stands behind all others
        rw [List.getElem?_append_right hge, List.getElem?_singleton] at hst
        split at hst
        · rename_i hi0
          obtain rfl := Option.some.inj hst
          have hlen : i = s.statements.toList.length := by omega
          refine ⟨lines.length, s, rfl, List.getElem?_concat_length, ?_, ?_,
            ⟨tokens, htokens, hi⟩, horg, rfl, hfits⟩
          · rw [List.take_left]
            exact hs
          · rw [hlen, List.take_left]
        · cases hst

theorem exists_placedIn_of_mem (h : a.after lines = some s') {st : Statement}
    (hst : st ∈ s'.statements.toList) :
    ∃ n s, a.after (lines.take n) = some s ∧ s.PlacedIn st := by
  obtain ⟨i, hi⟩ := List.mem_iff_getElem?.mp hst
  obtain ⟨n, s, -, -, hs, -, hplaced⟩ := exists_placedIn h hi
  exact ⟨n, s, hs, hplaced⟩

/-- **What happens between two lines.**  The statements that are placed have line numbers between
the two, and where no segment starts the reach grows by their total length. -/
theorem exists_between (hmn : m ≤ n) (hn : n ≤ lines.length)
    (hs : a.after (lines.take m) = some s) (hs' : a.after (lines.take n) = some s') :
    ∃ more, s'.statements.toList = s.statements.toList ++ more ∧ (∀ st ∈ more, m < st.lineNo) ∧
      (a.Unbroken lines m (n + 1) → s'.reach = s.reach + Statement.total more) := by
  induction hmn generalizing s' with
  | refl =>
    obtain rfl := Option.some.inj (hs.symm.trans hs')
    exact ⟨[], (List.append_nil _).symm, fun st hst => (List.not_mem_nil hst).elim, fun _ => rfl⟩
  | @step n hmn ih =>
    have hline : lines[n]? = some lines[n] := List.getElem?_eq_getElem hn
    obtain ⟨s₁, hs₁, hadv⟩ := advances_of_after_take hs' hline
    obtain ⟨more, hmore, hlater, hreach⟩ := ih (Nat.le_of_lt hn) hs₁
    -- up to the last line the induction hypothesis counts, if no segment starts before it
    have hearlier (hunbroken : a.Unbroken lines m (n + 1 + 1)) :
        s₁.reach = s.reach + Statement.total more :=
      hreach fun k hmk hkn => hunbroken k hmk (Nat.lt_succ_of_lt hkn)
    cases hadv with
    | bare htokens hlabel hrest =>
      simp only [Sweep.entered_statements, Sweep.entered_reach]
      exact ⟨more, hmore, hlater, hearlier⟩
    | @org tokens addr htokens hlabel hi =>
      simp only [Sweep.entered_statements]
      -- the reach is set back here, but the line starts a segment
      refine ⟨more, hmore, hlater, fun hunbroken => ?_⟩
      have hseg : a.segment? lines (n + 1) = some addr := by
        rw [segment?, hs₁, hline]
        simp only [Sweep.instructionOn?_eq htokens hi]
      rw [hunbroken (n + 1) (Nat.lt_succ_of_le hmn) (Nat.lt_succ_self _)] at hseg
      cases hseg
    | @place tokens i htokens hlabel hi horg hfits =>
      refine ⟨more ++ [⟨n + 1, lines[n], s₁.location.current, i⟩], ?_, ?_, fun hunbroken => ?_⟩
      · rw [Array.toList_push, hmore, List.append_assoc]
      · intro st hst
        rcases List.mem_append.mp hst with hst | hst
        · exact hlater st hst
        · rw [List.mem_singleton.mp hst]
          exact Nat.lt_succ_of_le hmn
      · simp only [hearlier hunbroken, Statement.total_append, Statement.total_cons,
          Statement.total_nil, Statement.length, Nat.add_zero, Nat.add_assoc]

end Assembler

end BootSector
