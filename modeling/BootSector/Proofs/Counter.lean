import BootSector.Proofs.Placement

/-!
# The location counter

The location counter is a 16-bit word, and the code of a segment may end exactly at 2¹⁶, where no
word points.  So there is one place at which the counter is not the true end of the code, and the
assembler admits nothing there that needs an address.

* `segmentLine lines n` is the line on which the segment of the first `n` lines started, and
  `Sweep.lengthSince` the length of what was placed behind it.  `reach_eq_start_add` follows the
  sweep from one to the other: the reach is the start of the segment and that length.
* `counter_exact`: until the segment is full, the counter and the address of a statement on the line
  are that sum, as natural numbers.  Where it is full, the line defines no label and places nothing
  but an empty statement.
* `counter_wraps_at_end`: a full segment, on which the counter is not the sum.
-/

namespace BootSector

/-- The total length of the statements that were placed behind line `m`. -/
def Sweep.lengthSince (s : Sweep) (m : Nat) : Nat :=
  Statement.total (s.statements.toList.filter fun st => m < st.lineNo)

namespace Assembler

variable {a : Assembler} {lines : List Bytes} {line : Bytes} {s s' : Sweep} {m n : Nat}

/-! ### The current segment -/

/-- **The line on which the current segment started**, when the first `n` lines have been read. -/
def segmentLine (a : Assembler) (lines : List Bytes) : Nat → Nat
  | 0 => 0
  | n + 1 => if (a.segment? lines (n + 1)).isSome then n + 1 else a.segmentLine lines n

theorem segmentLine_le (a : Assembler) (lines : List Bytes) (n : Nat) :
    a.segmentLine lines n ≤ n := by
  induction n with
  | zero => exact Nat.le_refl 0
  | succ n ih =>
    unfold segmentLine
    split
    · exact Nat.le_refl _
    · omega

/-- No segment starts behind the line of the current one. -/
theorem unbroken_segmentLine (a : Assembler) (lines : List Bytes) (n : Nat) :
    a.Unbroken lines (a.segmentLine lines n) (n + 1) := by
  induction n with
  | zero =>
    intro k hlow hhigh
    have hzero : a.segmentLine lines 0 = 0 := rfl
    omega
  | succ n ih =>
    intro k hlow hhigh
    unfold segmentLine at hlow
    split at hlow
    · omega
    · rename_i hnone
      rcases Nat.lt_or_eq_of_le (Nat.le_of_lt_succ hhigh) with hk | rfl
      · exact ih k hlow hk
      · exact Option.not_isSome_iff_eq_none.mp hnone

/-- A line that advances the state starts a segment at the new location, or keeps the segment. -/
theorem segment?_of_advances (hs : a.after (lines.take n) = some s) (hline : lines[n]? = some line)
    (hadv : s.Advances a.verbose (n + 1) line s') :
    a.segment? lines (n + 1) = some s'.location.start ∨
      a.segment? lines (n + 1) = none ∧ s'.location.start = s.location.start := by
  rw [segment?, hs, hline]
  cases hadv with
  | bare htokens hlabel hrest =>
    right
    have hon : Sweep.instructionOn? s.location line = none := by
      rw [Sweep.instructionOn?, htokens]
      simp only [hrest]
      rfl
    simp only [hon, Sweep.entered_location, and_self]
  | org htokens hlabel hi =>
    left
    simp only [Sweep.instructionOn?_eq htokens hi]
  | @place tokens i htokens hlabel hi horg hfits =>
    right
    simp only [Sweep.instructionOn?_eq htokens hi, and_true]
    cases i with
    | origin addr => cases horg
    | _ => rfl

/-- The start of the segment is the address with which its line started it. -/
theorem segment?_segmentLine (hn : n ≤ lines.length) (hs : a.after (lines.take n) = some s) :
    a.segment? lines (a.segmentLine lines n) = some s.location.start := by
  induction n generalizing s with
  | zero =>
    obtain ⟨labels, -, rfl⟩ := eq_start_of_after_nil hs
    rfl
  | succ n ih =>
    have hline : lines[n]? = some lines[n] := List.getElem?_eq_getElem hn
    obtain ⟨s₀, hs₀, hadv⟩ := advances_of_after_take hs hline
    unfold segmentLine
    rcases segment?_of_advances hs₀ hline hadv with hseg | ⟨hseg, hstart⟩
    · rw [hseg, Option.isSome_some, if_pos rfl, hseg]
    · rw [hseg, Option.isSome_none, if_neg Bool.false_ne_true, hstart]
      exact ih (Nat.le_of_lt hn) hs₀

/-! ### The length of a segment -/

/-- The statements of the first `m` lines stand on these lines. -/
theorem lineNo_le_of_after_take {st : Statement} (hs : a.after (lines.take m) = some s)
    (hst : st ∈ s.statements.toList) : st.lineNo ≤ m := by
  obtain ⟨i, hi⟩ := List.mem_iff_getElem?.mp hst
  obtain ⟨n, -, hlineNo, hline, -⟩ := exists_placedIn hs hi
  have hn : n < (lines.take m).length := (List.getElem?_eq_some_iff.mp hline).1
  rw [List.length_take] at hn
  omega

/-- **The reach is the start of the segment and the length of what was placed in it.** -/
theorem reach_eq_start_add (hn : n ≤ lines.length) (hs' : a.after (lines.take n) = some s') :
    s'.reach = s'.location.start.toNat + s'.lengthSince (a.segmentLine lines n) := by
  have hseg := segment?_segmentLine hn hs'
  have hunbroken := unbroken_segmentLine a lines n
  have hmn := segmentLine_le a lines n
  revert hseg hunbroken hmn
  generalize a.segmentLine lines n = m
  intro hseg hunbroken hmn
  obtain ⟨s, hs⟩ : ∃ s, a.after (lines.take m) = some s := by
    have htake : (lines.take n).take m = lines.take m := by
      rw [List.take_take, Nat.min_eq_left hmn]
    rw [← htake]
    exact exists_after_take m hs'
  obtain ⟨more, hmore, hlater, hreach⟩ := exists_between hmn hn hs hs'
  -- what was placed behind line `m` is what came in between
  have hbefore : s.statements.toList.filter (fun st => m < st.lineNo) = [] := by
    refine List.filter_eq_nil_iff.mpr fun st hst => ?_
    have hle := lineNo_le_of_after_take hs hst
    simpa using hle
  have hbehind : more.filter (fun st => m < st.lineNo) = more :=
    List.filter_eq_self.mpr fun st hst => decide_eq_true (hlater st hst)
  rw [hreach hunbroken, reach_of_segment? hs hseg, Sweep.lengthSince, hmore, List.filter_append,
    hbefore, hbehind, List.nil_append]

/-! ### The counter on a line -/

/-- A statement is placed by the state in front of its line. -/
theorem placedIn_of_lineNo {k : Nat} {st : Statement} (hs : a.after (lines.take n) = some s)
    (hs' : a.after (lines.take k) = some s') (hst : st ∈ s'.statements.toList)
    (hlineNo : st.lineNo = n + 1) : s.PlacedIn st := by
  obtain ⟨i, hi⟩ := List.mem_iff_getElem?.mp hst
  obtain ⟨n', s₀, hn', hline, hs₀, -, hplaced⟩ := exists_placedIn hs' hi
  obtain rfl : n' = n := by omega
  have hlt : n' < (lines.take k).length := (List.getElem?_eq_some_iff.mp hline).1
  rw [List.length_take] at hlt
  rw [List.take_take, Nat.min_eq_left (by omega), hs] at hs₀
  rw [Option.some.inj hs₀]
  exact hplaced

/-- **What is counted when a line is read** behind the first `n`, in a segment whose code ends at
`total`. -/
structure Counted (a : Assembler) (lines : List Bytes) (n : Nat) (s : Sweep) (total : Nat) :
    Prop where
  /-- The code of the segment ends inside the address space. -/
  bound : total ≤ 0x10000
  /-- Until the segment is full, the location counter is the end of its code. -/
  current : total < 0x10000 → s.location.current.toNat = total
  /-- Until the segment is full, this is the address of a statement on the line. -/
  address (k : Nat) (s' : Sweep) (st : Statement) : a.after (lines.take k) = some s' →
    st ∈ s'.statements.toList → st.lineNo = n + 1 → total < 0x10000 → st.address.toNat = total
  /-- A line that defines a label is refused in a full segment. -/
  label (s' : Sweep) (line : Bytes) (tokens : List Token) : lines[n]? = some line →
    a.after (lines.take (n + 1)) = some s' → Token.ofLine s.location line = .ok tokens →
    (Token.definedLabel? tokens).isSome → total < 0x10000
  /-- The line places what still fits, and so only an empty statement in a full segment. -/
  fits (k : Nat) (s' : Sweep) (st : Statement) : a.after (lines.take k) = some s' →
    st ∈ s'.statements.toList → st.lineNo = n + 1 → total + st.length.toNat ≤ 0x10000

/-- **The location counter is exact until its segment is full.**  On every line that the sweep
reaches, the segment started at the origin or at the last `org`, and its code ends at the sum of
this start and of the lengths of the statements placed in it.  The sum is at most 2¹⁶.  Where it is
smaller, the location counter and the address of a statement on the line are the sum; where it is
not, the line defines no label and places no statement but an empty one. -/
theorem counter_exact (a : Assembler) (source line : Bytes) (n : Nat) (s : Sweep)
    (hline : (Reading.ofBytes source).lines[n]? = some line)
    (hs : a.after ((Reading.ofBytes source).lines.take n) = some s) :
    a.segment? (Reading.ofBytes source).lines (a.segmentLine (Reading.ofBytes source).lines n) =
        some s.location.start ∧
      a.Counted (Reading.ofBytes source).lines n s
        (s.location.start.toNat +
          s.lengthSince (a.segmentLine (Reading.ofBytes source).lines n)) := by
  revert hline hs
  generalize (Reading.ofBytes source).lines = lines
  intro hline hs
  have hn : n < lines.length := (List.getElem?_eq_some_iff.mp hline).1
  refine ⟨segment?_segmentLine (Nat.le_of_lt hn) hs, ?_⟩
  rw [← reach_eq_start_add (Nat.le_of_lt hn) hs]
  obtain ⟨hbound, hcurrent⟩ := reach_of_after hs
  have hexact (hlt : s.reach < 0x10000) : s.location.current.toNat = s.reach := by
    rw [hcurrent]
    exact Nat.mod_eq_of_lt hlt
  constructor
  case bound => exact hbound
  case current => exact hexact
  case address =>
    intro k s' st hs' hst hlineNo hlt
    rw [(placedIn_of_lineNo hs hs' hst hlineNo).address]
    exact hexact hlt
  case label =>
    intro s' line' tokens hline' hs' htokens hlabel
    obtain ⟨s₀, hs₀, hadv⟩ := advances_of_after_take hs' hline'
    obtain rfl : s₀ = s := Option.some.inj (hs₀.symm.trans hs)
    obtain ⟨tokens', htokens', hbelow, -⟩ := hadv.exists_tokens
    obtain rfl := Except.ok.inj (htokens'.symm.trans htokens)
    exact hbelow hlabel
  case fits =>
    intro k s' st hs' hst hlineNo
    exact (placedIn_of_lineNo hs hs' hst hlineNo).fits

/-- A second segment, 16 bytes below the end of the address space.  In front of the last line it has
14 bytes, and the jump there stands at the second to last address. -/
theorem counter_exact_second_segment :
    ∃ (a : Assembler) (source line : Bytes) (s : Sweep) (p : Program) (jump : Statement),
      (Reading.ofBytes source).lines[3]? = some line ∧
      a.after ((Reading.ofBytes source).lines.take 3) = some s ∧ a.parse source = .ok p ∧
      p.statements.getLast? = some jump ∧ s.location.start = 0xFFF0 ∧
      s.lengthSince (a.segmentLine (Reading.ofBytes source).lines 3) = 14 ∧
      s.location.current.toNat = 0xFFFE ∧ jump.address.toNat = 0xFFFE := by
  let a : Assembler := { origin := 0x7C00 }
  let source := Bytes.ofString "hlt\norg 0xFFF0\ntimes 14 0x90\nend: jmp end"
  let line := Bytes.ofString "end: jmp end"
  let lines := (Reading.ofBytes source).lines
  let last := Bytes.ofString "end"
  let hlt : Statement := ⟨1, Bytes.ofString "hlt", 0x7C00, .simple 0xF4⟩
  let pad : Statement := ⟨3, Bytes.ofString "times 14 0x90", 0xFFF0, .times 14 (.byte 0x90)⟩
  let jump : Statement := ⟨4, line, 0xFFFE, .jump 0xEB 0xFFFE (.label last)⟩
  let s : Sweep := ⟨⟨0xFFF0, 0xFFFE⟩, 0xFFFE, .empty, #[hlt, pad], #[]⟩
  let s' : Sweep :=
    ⟨⟨0xFFF0, 0xFFFE + 2⟩, 0x10000, LabelTable.empty.bind last 0xFFFE, #[hlt, pad, jump], #[]⟩
  let p : Program := ⟨[hlt, pad, jump], LabelTable.empty.bind last 0xFFFE, false⟩
  have hline : lines[3]? = some line := rfl
  have hs : a.after (lines.take 3) = some s := by rfl
  have hs' : a.after (lines.take 4) = some s' := by rfl
  have hparse : a.parse source = .ok p := rfl
  obtain ⟨-, hcounted⟩ := counter_exact a source line 3 s hline hs
  have htotal : s.location.start.toNat + s.lengthSince (a.segmentLine lines 3) = 0xFFFE := rfl
  have hbelow : s.location.start.toNat + s.lengthSince (a.segmentLine lines 3) < 0x10000 := by
    rw [htotal]
    decide
  refine ⟨a, source, line, s, p, jump, hline, hs, hparse, rfl, rfl, rfl, ?_, ?_⟩
  · rw [← htotal]
    exact hcounted.current hbelow
  · rw [← htotal]
    exact hcounted.address 4 s' jump hs' (by simp [s']) rfl hbelow

/-- **The location counter wraps around at the end of the address space.**  The first line fills the
segment.  On the second line the counter and the address of the empty statement are zero, while the
start of the segment and the length of its code make 2¹⁶. -/
theorem counter_wraps_at_end :
    ∃ (a : Assembler) (source line : Bytes) (s : Sweep) (p : Program) (st : Statement),
      (Reading.ofBytes source).lines[1]? = some line ∧
      a.after ((Reading.ofBytes source).lines.take 1) = some s ∧ a.parse source = .ok p ∧
      st ∈ p.statements ∧ st.lineNo = 2 ∧
      a.segment? (Reading.ofBytes source).lines (a.segmentLine (Reading.ofBytes source).lines 1) =
        some s.location.start ∧
      s.location.start.toNat + s.lengthSince (a.segmentLine (Reading.ofBytes source).lines 1) =
        0x10000 ∧
      s.location.current.toNat ≠
        s.location.start.toNat + s.lengthSince (a.segmentLine (Reading.ofBytes source).lines 1) ∧
      st.address.toNat ≠
        s.location.start.toNat + s.lengthSince (a.segmentLine (Reading.ofBytes source).lines 1) := by
  let a : Assembler := { origin := 0xFFF0 }
  let source := Bytes.ofString "times 16 0x90\ntimes 0 0x90"
  let line := Bytes.ofString "times 0 0x90"
  let lines := (Reading.ofBytes source).lines
  let full : Statement := ⟨1, Bytes.ofString "times 16 0x90", 0xFFF0, .times 16 (.byte 0x90)⟩
  let st : Statement := ⟨2, line, 0xFFF0 + 16, .times 0 (.byte 0x90)⟩
  let s : Sweep := ⟨⟨0xFFF0, 0xFFF0 + 16⟩, 0x10000, .empty, #[full], #[]⟩
  let p : Program := ⟨[full, st], .empty, false⟩
  have hs : a.after (lines.take 1) = some s := by rfl
  have hparse : a.parse source = .ok p := rfl
  have htotal : s.location.start.toNat + s.lengthSince (a.segmentLine lines 1) = 0x10000 := rfl
  refine ⟨a, source, line, s, p, st, rfl, hs, hparse, by simp [p], rfl, rfl, htotal, ?_, ?_⟩
  · rw [htotal]
    decide
  · rw [htotal]
    decide

end Assembler

end BootSector
