import BootSector.Proofs.Placement

/-!
# The layout of the machine code

The first sweep gives addresses from the lengths of the statements, the second puts the bytes of the
statements one after another.  Here the two are shown to agree.

* `Program.Encodes` is what the second sweep does, as a relation on statements and bytes that can be
  cut between any two statements.  With the lengths exact (`length_eq_size`), the bytes of a
  statement start at its offset.
* `address_eq_reach_add` follows the first sweep from any line to a statement of the same segment:
  the address of the statement is the reach on that line and the lengths in between.  What the
  layout says about addresses are cases of it.
-/

namespace BootSector

namespace Statement

/-- Empty statements have no length together. -/
theorem total_eq_zero {sts : List Statement} (h : ∀ st ∈ sts, st.length = 0) : total sts = 0 := by
  induction sts with
  | nil => rfl
  | cons st sts ih =>
    have hst : st.length = 0 := h st List.mem_cons_self
    have hsts : total sts = 0 := ih fun st' hst' => h st' (List.mem_cons_of_mem st hst')
    rw [total_cons, hst, hsts]
    rfl

end Statement

namespace Program

variable {p : Program} {sts : List Statement} {code : Bytes}

/-! ### Offsets -/

/-- **The offset of the `i`-th statement**: the exact length of the statements before it. -/
def offset (p : Program) (i : Nat) : Nat := Statement.total (p.statements.take i)

theorem offset_succ {i : Nat} {st : Statement} (h : p.statements[i]? = some st) :
    p.offset (i + 1) = p.offset i + st.length.toNat := by
  rw [offset, List.take_add_one, h, Statement.total_append]
  rfl

/-- Empty statements do not move the offset. -/
theorem offset_eq_of_empty {i j : Nat} (hij : i ≤ j)
    (h : ∀ k st, i ≤ k → k < j → p.statements[k]? = some st → st.length = 0) :
    p.offset j = p.offset i := by
  induction hij with
  | refl => rfl
  | @step j hij ih =>
    have hj : p.offset j = p.offset i := ih fun k st hik hkj => h k st hik (Nat.lt_succ_of_lt hkj)
    cases hst : p.statements[j]? with
    | none =>
      rw [← hj, offset, List.take_add_one, hst, Option.toList_none, List.append_nil, offset]
    | some st => rw [offset_succ hst, h j st hij (Nat.lt_succ_self j) hst, hj]; rfl

/-! ### The second sweep -/

/-- **The bytes of some statements**, one after another. -/
inductive Encodes (p : Program) : List Statement → Bytes → Prop where
  | nil : Encodes p [] []
  | cons {st : Statement} {sts : List Statement} {code rest : Bytes}
    (hst : p.encodeStatement st = .ok code) (hsts : Encodes p sts rest) :
    Encodes p (st :: sts) (code ++ rest)

theorem encodes_of_encodeOnto {done : List Bytes} (h : p.encodeOnto done sts = .ok code) :
    ∃ rest, code = done.reverse.flatten ++ rest ∧ p.Encodes sts rest := by
  induction sts generalizing done with
  | nil =>
    obtain rfl := Except.ok.inj h
    exact ⟨[], (List.append_nil _).symm, .nil⟩
  | cons st sts ih =>
    rw [encodeOnto] at h
    split at h
    · rename_i head hhead
      obtain ⟨rest, rfl, hrest⟩ := ih h
      refine ⟨head ++ rest, ?_, .cons hhead hrest⟩
      rw [List.reverse_cons, List.flatten_append, List.flatten_singleton, List.append_assoc]
    · cases h

theorem Encodes.encodeOnto (h : p.Encodes sts code) (done : List Bytes) :
    p.encodeOnto done sts = .ok (done.reverse.flatten ++ code) := by
  induction h generalizing done with
  | nil => rw [Program.encodeOnto, List.append_nil]
  | @cons st sts own rest hst hsts ih =>
    simp only [Program.encodeOnto, hst, ih, List.reverse_cons, List.flatten_append,
      List.flatten_singleton, List.append_assoc]

/-- The machine code of a program is the bytes of its statements. -/
theorem encode_eq_ok_iff : p.encode = .ok code ↔ p.Encodes p.statements code := by
  constructor
  · intro h
    obtain ⟨rest, rfl, hrest⟩ := encodes_of_encodeOnto h
    exact hrest
  · exact fun h => h.encodeOnto []

/-- The bytes can be cut between two statements. -/
theorem Encodes.exists_of_append {sts' : List Statement} (h : p.Encodes (sts ++ sts') code) :
    ∃ code₁ code₂, code = code₁ ++ code₂ ∧ p.Encodes sts code₁ ∧ p.Encodes sts' code₂ := by
  induction sts generalizing code with
  | nil => exact ⟨[], code, rfl, .nil, h⟩
  | cons st sts ih =>
    cases h with
    | @cons _ _ head _ hhead hsts =>
      obtain ⟨code₁, code₂, rfl, h₁, h₂⟩ := ih hsts
      exact ⟨head ++ code₁, code₂, (List.append_assoc ..).symm, .cons hhead h₁, h₂⟩

/-- The bytes of some statements and of others behind them. -/
theorem Encodes.append {sts' : List Statement} {code' : Bytes} (h : p.Encodes sts code)
    (h' : p.Encodes sts' code') : p.Encodes (sts ++ sts') (code ++ code') := by
  induction h with
  | nil => exact h'
  | @cons st sts own rest hst hsts ih =>
    rw [List.append_assoc]
    exact .cons hst ih

/-- A statement has as many bytes as its instruction. -/
theorem length_of_encodeStatement {st : Statement} (h : p.encodeStatement st = .ok code) :
    code.length = st.instruction.size := by
  unfold encodeStatement at h
  split at h
  · rename_i code' hcode
    obtain rfl := Except.ok.inj h
    exact Instruction.length_of_encode hcode
  · cases h

/-- Statements with exact lengths have as many bytes as the lengths say. -/
theorem Encodes.length_eq_total (hexact : ∀ st ∈ sts, st.length.toNat = st.instruction.size)
    (h : p.Encodes sts code) : code.length = Statement.total sts := by
  induction h with
  | nil => rfl
  | @cons st sts head rest hst hsts ih =>
    rw [List.length_append, Statement.total_cons, length_of_encodeStatement hst,
      hexact st List.mem_cons_self, ih fun st' hst' => hexact st' (List.mem_cons_of_mem st hst')]

/-- **The bytes of a statement start at its offset.** -/
theorem Encodes.slice (hexact : ∀ st ∈ p.statements, st.length.toNat = st.instruction.size)
    (h : p.Encodes p.statements code) {i : Nat} {st : Statement}
    (hst : p.statements[i]? = some st) :
    p.offset i + st.length.toNat ≤ code.length ∧
      p.encodeStatement st = .ok ((code.drop (p.offset i)).take st.length.toNat) := by
  obtain ⟨hi, rfl⟩ := List.getElem?_eq_some_iff.mp hst
  have hsplit :
      p.statements = p.statements.take i ++ p.statements[i] :: p.statements.drop (i + 1) := by
    rw [← List.drop_eq_getElem_cons hi, List.take_append_drop]
  rw [hsplit] at h
  obtain ⟨before, tail, rfl, hbefore, htail⟩ := h.exists_of_append
  cases htail with
  | @cons _ _ own behind hown hbehind =>
    have hoffset : before.length = p.offset i :=
      hbefore.length_eq_total fun st hst => hexact st (List.mem_of_mem_take hst)
    have hlength : own.length = p.statements[i].length.toNat := by
      rw [length_of_encodeStatement hown, hexact _ (List.getElem_mem hi)]
    rw [← hoffset, ← hlength]
    refine ⟨by simp, ?_⟩
    rw [List.drop_left, List.take_left, hown]

end Program

/-! ### The first sweep -/

namespace Assembler

variable {a : Assembler} {lines : List Bytes} {s s' : Sweep} {st st' : Statement} {i j m : Nat}

/-- The length of a statement is exact. -/
theorem length_eq_size (h : a.after lines = some s') (hst : st ∈ s'.statements.toList) :
    st.length.toNat = st.instruction.size := by
  obtain ⟨n, s, -, hplaced⟩ := exists_placedIn_of_mem h hst
  obtain ⟨tokens, -, htokens⟩ := hplaced.reads
  exact Instruction.toNat_length_of_ofTokens htokens

/-- **The address of a statement**, seen from a line before it in the same segment: the reach on
that line, and the lengths of the statements that come in between. -/
theorem address_eq_reach_add (h : a.after lines = some s')
    (hst : s'.statements.toList[i]? = some st) (hne : st.length ≠ 0)
    (hs : a.after (lines.take m) = some s) (hm : m < st.lineNo)
    (hunbroken : a.Unbroken lines m st.lineNo) :
    ∃ more, s'.statements.toList.take i = s.statements.toList ++ more ∧
      (∀ st' ∈ more, m < st'.lineNo) ∧ st.address.toNat = s.reach + Statement.total more := by
  obtain ⟨n, s₀, hlineNo, hline, hs₀, htake, hplaced⟩ := exists_placedIn h hst
  have hn : n < lines.length := (List.getElem?_eq_some_iff.mp hline).1
  obtain ⟨more, hmore, hlater, hreach⟩ :=
    exists_between (by omega) (Nat.le_of_lt hn) hs hs₀
  refine ⟨more, htake.symm.trans hmore, hlater, ?_⟩
  rw [(address_of_placedIn hs₀ hplaced hne).1]
  exact hreach (hlineNo ▸ hunbroken)

/-- Later statements stand on later lines. -/
theorem lineNo_lt (h : a.after lines = some s') (hi : s'.statements.toList[i]? = some st)
    (hj : s'.statements.toList[j]? = some st') (hij : i < j) : st.lineNo < st'.lineNo := by
  obtain ⟨n, s₁, hn, hline, hs₁, htake, -⟩ := exists_placedIn h hi
  obtain ⟨n', s₂, hn', -, hs₂, htake', -⟩ := exists_placedIn h hj
  have hlength : n < lines.length := (List.getElem?_eq_some_iff.mp hline).1
  have hjlength : j < s'.statements.toList.length := (List.getElem?_eq_some_iff.mp hj).1
  refine Nat.lt_of_not_le fun hle => ?_
  -- otherwise the state in front of the earlier statement already holds the later ones
  obtain ⟨more, hmore, -⟩ := exists_between (by omega) (Nat.le_of_lt hlength) hs₂ hs₁
  have hcount := congrArg List.length hmore
  rw [htake, htake', List.length_append, List.length_take, List.length_take] at hcount
  omega

/-- The first statement behind a line that is not empty has the reach on that line as its address, if
no segment starts in between. -/
theorem address_eq_reach_of_empty (h : a.after lines = some s')
    (hst : s'.statements.toList[i]? = some st) (hne : st.length ≠ 0)
    (hs : a.after (lines.take m) = some s) (hm : m < st.lineNo)
    (hunbroken : a.Unbroken lines m st.lineNo)
    (hempty : ∀ j st', j < i → s'.statements.toList[j]? = some st' → m < st'.lineNo →
      st'.length = 0) : st.address.toNat = s.reach := by
  obtain ⟨more, hmore, hlater, haddress⟩ := address_eq_reach_add h hst hne hs hm hunbroken
  -- whatever comes between the line and the statement is empty
  have htotal : Statement.total more = 0 := by
    refine Statement.total_eq_zero fun st' hst' => ?_
    have hmem : st' ∈ s'.statements.toList.take i := hmore ▸ List.mem_append_right _ hst'
    obtain ⟨j, hj⟩ := List.mem_iff_getElem?.mp hmem
    have hji : j < i := by
      have := (List.getElem?_eq_some_iff.mp hj).1
      rw [List.length_take] at this
      omega
    rw [List.getElem?_take_of_lt hji] at hj
    exact hempty j st' hji hj (hlater st' hst')
  rw [haddress, htotal, Nat.add_zero]

/-- The first statement of a segment that is not empty has the address of the segment. -/
theorem address_of_first (h : a.after lines = some s') {addr : UInt16}
    (hseg : a.segment? lines m = some addr) (hst : s'.statements.toList[i]? = some st)
    (hne : st.length ≠ 0) (hm : m < st.lineNo)
    (hunbroken : a.Unbroken lines m st.lineNo)
    (hempty : ∀ j st', j < i → s'.statements.toList[j]? = some st' → m < st'.lineNo →
      st'.length = 0) : st.address = addr := by
  obtain ⟨s, hs⟩ := exists_after_take m h
  have haddress := address_eq_reach_of_empty h hst hne hs hm hunbroken hempty
  rw [reach_of_segment? hs hseg] at haddress
  exact UInt16.toNat_inj.mp haddress

/-- Two statements of a segment that follow each other, empty ones aside, leave no gap. -/
theorem address_of_next (h : a.after lines = some s') (hi : s'.statements.toList[i]? = some st)
    (hj : s'.statements.toList[j]? = some st') (hij : i < j) (hne : st.length ≠ 0)
    (hne' : st'.length ≠ 0)
    (hempty : ∀ k between, i < k → k < j → s'.statements.toList[k]? = some between →
      between.length = 0)
    (hunbroken : a.Unbroken lines st.lineNo st'.lineNo) :
    st'.address.toNat = st.address.toNat + st.length.toNat := by
  have hlt : st.lineNo < st'.lineNo := lineNo_lt h hi hj hij
  obtain ⟨n, s, hlineNo, hline, hs, htake, hplaced⟩ := exists_placedIn h hi
  -- the line of the earlier statement itself starts no segment
  have hunbroken' : a.Unbroken lines n st'.lineNo := by
    intro k hnk hk
    rcases Nat.lt_or_eq_of_le (Nat.succ_le_of_lt hnk) with hnk | rfl
    · exact hunbroken k (hlineNo ▸ hnk) hk
    · exact segment?_of_placedIn hs hline hplaced
  obtain ⟨more, hmore, -, haddress⟩ := address_eq_reach_add h hj hne' hs (by omega) hunbroken'
  -- the lengths in between are the one of the earlier statement and those of empty ones
  let p : Program := ⟨s'.statements.toList, s'.labels, a.strict⟩
  have hlast : p.offset j = p.offset (i + 1) := Program.offset_eq_of_empty hij hempty
  have hnext : p.offset (i + 1) = p.offset i + st.length.toNat := Program.offset_succ hi
  have htotal : p.offset j = p.offset i + Statement.total more := by
    show Statement.total (s'.statements.toList.take j) = _
    rw [hmore, Statement.total_append, htake]
    rfl
  have hreach : st.address.toNat = s.reach := (address_of_placedIn hs hplaced hne).1
  omega

/-- In a single segment, the address of a statement that is not empty lies behind the origin by the
lengths of the statements before it. -/
theorem address_eq_origin_add (h : a.after lines = some s')
    (hst : s'.statements.toList[i]? = some st) (hne : st.length ≠ 0)
    (hnone : ∀ n, 0 < n → a.segment? lines n = none) :
    st.address.toNat = a.origin.toNat + Statement.total (s'.statements.toList.take i) := by
  obtain ⟨n, -, hlineNo, -⟩ := exists_placedIn h hst
  obtain ⟨s, hs⟩ := exists_after_take 0 h
  obtain ⟨more, hmore, -, haddress⟩ :=
    address_eq_reach_add h hst hne hs (by omega) fun k hk _ => hnone k hk
  obtain ⟨labels, -, rfl⟩ := eq_start_of_after_nil hs
  rw [hmore, haddress]
  rfl

end Assembler

/-! ### Layout -/

/-- **The layout of a program's code**: `code` is laid out in statements as `p` says, when `p` is
the program that assembler `a` makes of `lines`. -/
structure Program.LaidOut (a : Assembler) (lines : List Bytes) (p : Program) (code : Bytes) :
    Prop where
  /-- The code is as long as all statements together. -/
  length : code.length = p.offset p.statements.length
  /-- The bytes of a statement stand at its offset. -/
  slice (i : Nat) (st : Statement) : p.statements[i]? = some st →
    p.offset i + st.length.toNat ≤ code.length ∧
      p.encodeStatement st = .ok ((code.drop (p.offset i)).take st.length.toNat)
  /-- Two statements of a segment that are not empty, with only empty ones between them, stand at
  adjacent addresses. -/
  next (i j : Nat) (st st' : Statement) : p.statements[i]? = some st →
    p.statements[j]? = some st' → i < j → st.length ≠ 0 → st'.length ≠ 0 →
    (∀ (k : Nat) (between : Statement), i < k → k < j → p.statements[k]? = some between →
      between.length = 0) →
    a.Unbroken lines st.lineNo st'.lineNo →
    st'.address.toNat = st.address.toNat + st.length.toNat
  /-- The first statement of a segment that is not empty stands at the address of the segment. -/
  first (m : Nat) (addr : UInt16) (i : Nat) (st : Statement) : a.segment? lines m = some addr →
    p.statements[i]? = some st → st.length ≠ 0 → m < st.lineNo →
    a.Unbroken lines m st.lineNo →
    (∀ (j : Nat) (before : Statement), j < i → p.statements[j]? = some before →
      m < before.lineNo → before.length = 0) →
    st.address = addr
  /-- A statement that is not empty ends inside the address space. -/
  fits (st : Statement) : st ∈ p.statements → st.length ≠ 0 →
    st.address.toNat + st.length.toNat ≤ 0x10000
  /-- In a single segment, the offset of a statement that is not empty is its distance from the
  origin. -/
  flat : (∀ n, 0 < n → a.segment? lines n = none) →
    ∀ (i : Nat) (st : Statement), p.statements[i]? = some st → st.length ≠ 0 →
      a.origin ≤ st.address ∧ p.offset i = st.address.toNat - a.origin.toNat

/-- **The two sweeps agree on the layout.** -/
theorem Assembler.laidOut_of_parse (a : Assembler) (source : Bytes) (p : Program) (code : Bytes)
    (hparse : a.parse source = .ok p) (hcode : p.encode = .ok code) :
    p.LaidOut a (Reading.ofBytes source).lines code := by
  obtain ⟨-, s, hs, rfl⟩ := parse_eq_ok_iff.mp hparse
  obtain ⟨_, rfl, hencodes⟩ := Program.encodes_of_encodeOnto hcode
  have hexact : ∀ st ∈ s.statements.toList, st.length.toNat = st.instruction.size :=
    fun st hst => length_eq_size hs hst
  constructor
  case length =>
    show _ = Statement.total (s.statements.toList.take s.statements.toList.length)
    rw [List.take_length]
    exact hencodes.length_eq_total hexact
  case slice => exact fun i st hst => hencodes.slice hexact hst
  case next => exact fun i j st st' hi hj => address_of_next hs hi hj
  case first => exact fun m addr i st hseg hst => address_of_first hs hseg hst
  case fits =>
    intro st hst hne
    obtain ⟨n, s₀, hs₀, hplaced⟩ := exists_placedIn_of_mem hs hst
    exact (address_of_placedIn hs₀ hplaced hne).2
  case flat =>
    intro hnone i st hst hne
    have haddress : st.address.toNat =
        a.origin.toNat + Program.offset ⟨s.statements.toList, s.labels, a.strict⟩ i :=
      address_eq_origin_add hs hst hne hnone
    refine ⟨UInt16.le_iff_toNat_le.mpr ?_, ?_⟩ <;> omega

/-- Two segments, the second of which ends with the address space.  An empty statement stands
between the first byte and the jump. -/
theorem Assembler.laidOut_two_segments :
    ∃ (a : Assembler) (source : Bytes) (p : Program) (code : Bytes) (first jump last : Statement),
      a.parse source = .ok p ∧ p.encode = .ok code ∧
      p.LaidOut a (Reading.ofBytes source).lines code ∧
      code = [0x41, 0xEB, 0xFE, 0x61, 0x62] ∧
      p.statements[0]? = some first ∧ p.statements[2]? = some jump ∧
      p.statements[3]? = some last ∧
      jump.address.toNat = first.address.toNat + 1 ∧ last.address = 0xFFFE := by
  let a : Assembler := { origin := 0x10, strict := true }
  let source := Bytes.ofString "0x41\ntimes 0 0x42\nhere: jmp here\norg 0xFFFE\n\"ab\"\n"
  let here := Bytes.ofString "here"
  let first : Statement := ⟨1, Bytes.ofString "0x41", 0x10, .byte 0x41⟩
  let jump : Statement :=
    ⟨3, Bytes.ofString "here: jmp here", 0x11, .jump 0xEB 0x11 (.label here)⟩
  let last : Statement := ⟨5, Bytes.ofString "\"ab\"", 0xFFFE, .text [0x61, 0x62]⟩
  let p : Program :=
    ⟨[first, ⟨2, Bytes.ofString "times 0 0x42", 0x11, .times 0 (.byte 0x42)⟩, jump, last],
      LabelTable.empty.bind here 0x11, true⟩
  have hparse : a.parse source = .ok p := rfl
  have hcode : p.encode = .ok [0x41, 0xEB, 0xFE, 0x61, 0x62] := rfl
  have hlaid := laidOut_of_parse a source p _ hparse hcode
  refine ⟨a, source, p, _, first, jump, last, hparse, hcode, hlaid, rfl, rfl, rfl, rfl, ?_, ?_⟩
  · refine hlaid.next 0 2 first jump rfl rfl (by decide) (by decide) (by decide) ?_ ?_
    · intro k between hk hk' hbetween
      obtain rfl : k = 1 := by omega
      obtain rfl := Option.some.inj hbetween
      rfl
    · intro k hk hk'
      obtain rfl : k = 2 := Nat.le_antisymm (Nat.le_of_lt_succ hk') hk
      rfl
  · refine hlaid.first 4 0xFFFE 3 last rfl rfl (by decide) (by decide) ?_ ?_
    · intro k hk hk'
      exact absurd hk' (Nat.not_lt.mpr hk)
    · intro j before hj hbefore hlater
      match j with
      | 0 | 1 | 2 =>
        obtain rfl := Option.some.inj hbefore
        exact absurd hlater (by decide)

end BootSector
