import BootSector.Proofs.Acceptance
import BootSector.Proofs.Counter
import BootSector.Proofs.Rendering
import BootSector.Proofs.Size
import BootSector.Proofs.Strictness

/-!
# Padding a segment

The line `times (N - ($ - $$)) 0x00` brings the current segment to a size of `N` bytes.  Every stage
of the assembler has a part in it.  The scanner replaces `$` and `$$` by the location counters
(`scan_paddingLine`), so the folded group is the number of bytes that are missing
(`ofLine_paddingLine`); `times` accepts it as a count (`ofTokens_zeroBytes`); and the sweep places
the statement where the segment ends (`exists_after_paddingLine`).
-/

namespace BootSector

namespace Token

variable {loc : Location} {size : Nat}

/-! ### The line -/

/-- **The line that pads a segment** to a size. -/
def paddingLine (size : Nat) : Bytes :=
  Bytes.ofChars ("times (".toList ++ (Text.decimal size ++ " - ($ - $$)) 0x00".toList))

/-- The tokens in the parentheses of the line: the size, less the inner difference. -/
def paddingGroup (loc : Location) (size : Nat) : List Token :=
  [number (Int32.ofNat size)] ++ ofKind .minus ::
    (ofKind .openParen ::
      ([number (Int32.ofNat loc.current.toNat)] ++ ofKind .minus ::
        [number (Int32.ofNat loc.start.toNat)]) ++
      [ofKind .closeParen])

/-- The line is scanned into its tokens. -/
theorem scan_paddingLine (hsize : size ≤ 65535) :
    scan loc (Text.Utf8.decode (paddingLine size)) =
      .ok ([ofKind .times] ++
        (ofKind .openParen :: paddingGroup loc size ++ [ofKind .closeParen]) ++ [byte 0]) := by
  have hmnemonic : (Bytes.ofString "times", TokenKind.times) ∈ mnemonics := by decide
  have htimes : ReadsAs loc TokenKind.times.name (ofKind .times) := readsAs_mnemonic loc hmnemonic
  have hdigits : ∀ c ∈ Text.decimal size, isWordChar c = true := fun c hc =>
    isWordChar_of_asciiDigit (Text.isDigit_of_mem_decimal hc)
  have hnumber : ReadsAs loc (Text.decimal size) (number (Int32.ofNat size)) :=
    readsAs_word (Text.decimal_ne_nil size) hdigits (ofWord_decimal loc (by omega))
  have hfollow : ∀ u ∈ [ofKind .openParen, ofKind .times].head?,
      MayFollow u (number (Int32.ofNat size)) := by
    rintro u ⟨⟩ - -
    exact ⟨rfl, TokenKind.noConfusion⟩
  rw [paddingLine, Text.Utf8.decode_ofChars]
  show scanOnto loc [] 0 (TokenKind.times.name ++ (' ' :: '(' :: _)) = _
  rw [htimes [] _ (separated_space _) (by rintro u ⟨⟩)]
  show scanOnto loc [ofKind .openParen, ofKind .times] 0 (Text.decimal size ++ (' ' :: _)) = _
  rw [hnumber _ _ (separated_space _) hfollow]
  -- behind the size the characters are the same in every such line; `-` is an operator both times,
  -- since a space follows it
  rfl

/-- The expression in the parentheses of the line. -/
def missing (loc : Location) (size : Nat) : Arith :=
  .binary .sub (.operand (Int32.ofNat size))
    (.binary .sub (.operand (Int32.ofNat loc.current.toNat))
      (.operand (Int32.ofNat loc.start.toNat)))

theorem writes_paddingGroup : Writes 0 (missing loc size) (paddingGroup loc size) := by
  have hoperand {n : Nat} (v : Int32) : Writes n (.operand v) [number v] :=
    Writes.operand (t := number v) rfl
  have hdifference : Writes 0
      (.binary .sub (.operand (Int32.ofNat loc.current.toNat))
        (.operand (Int32.ofNat loc.start.toNat)))
      ([number (Int32.ofNat loc.current.toNat)] ++ ofKind .minus ::
        [number (Int32.ofNat loc.start.toNat)]) :=
    .binary (Nat.le_refl 0) rfl (hoperand _) (hoperand _)
  exact .binary (Nat.le_refl 0) rfl (hoperand _) (.parens rfl rfl hdifference)

/-- The expression is the number of bytes that are missing, if no more than the size are there. -/
theorem value_missing (hsize : size ≤ 65535) (hle : loc.current.toNat ≤ loc.start.toNat + size) :
    (missing loc size).value = ((loc.start.toNat + size - loc.current.toNat : Nat) : Int) := by
  have hvalue {m : Nat} (hm : m ≤ 65535) : (Int32.ofNat m).toInt = m :=
    Int32.toInt_ofNat_of_lt (by omega)
  have hcurrent : loc.current.toNat < 65536 := loc.current.toNat_lt
  have hstart : loc.start.toNat < 65536 := loc.start.toNat_lt
  show (Int32.ofNat size).toInt - ((Int32.ofNat loc.current.toNat).toInt -
    (Int32.ofNat loc.start.toNat).toInt) = _
  rw [hvalue hsize, hvalue (by omega), hvalue (by omega)]
  omega

/-- **The line is read as a repetition of the zero byte**, as often as bytes are missing. -/
theorem ofLine_paddingLine (hsize : size ≤ 65535)
    (hle : loc.current.toNat ≤ loc.start.toNat + size) :
    ofLine loc (paddingLine size) =
      .ok [ofKind .times, number (Int32.ofNat (loc.start.toNat + size - loc.current.toNat)),
        byte 0] := by
  have hwrites : Writes 0 (missing loc size) (paddingGroup loc size) := writes_paddingGroup
  have hpre : ∀ t ∈ [ofKind .times], t.kind ≠ .openParen := by decide
  obtain ⟨polish, hpolish, hvalue⟩ := evaluate_reversePolish_writes
    (o := ofKind .openParen) (c := ofKind .closeParen) rfl rfl hwrites
  rw [value_missing hsize hle, Int32.ofInt_eq_ofNat] at hvalue
  rw [ofLine, scan_paddingLine hsize]
  show fold _ = _
  rw [fold_of_reversePolish hpre rfl rfl (balanced_of_writes hwrites)
    (all_isArithmetic_of_writes hwrites) hpolish, hvalue]
  rfl

end Token

/-! ### The instruction -/

namespace Instruction

theorem isWord_ofNat {k : Nat} (hk : k ≤ 65535) :
    IsWord (Token.number (Int32.ofNat k)) (UInt16.ofNat k) := by
  have hvalue : (Int32.ofNat k).toInt = k := Int32.toInt_ofNat_of_lt (by omega)
  have hlimit : (65535 : Int32).toInt = 65535 := rfl
  refine ⟨rfl, Int32.le_iff_toInt_le.mpr ?_, Int32.le_iff_toInt_le.mpr ?_, ?_⟩
  · show (0 : Int) ≤ (Int32.ofNat k).toInt
    omega
  · show (Int32.ofNat k).toInt ≤ (65535 : Int32).toInt
    omega
  · show UInt16.ofNat k = (UInt32.ofNat k).toUInt16
    rw [UInt32.toUInt16_ofNat']

/-- The instruction that emits some zero bytes. -/
def zeroBytes (count : Nat) : Instruction := .times (UInt16.ofNat count) (.byte 0)

variable {count : Nat}

theorem ofTokens_zeroBytes (h : count ≤ 65535) :
    ofTokens [Token.ofKind .times, Token.number (Int32.ofNat count), Token.byte 0] =
      .ok (zeroBytes count) := by
  have hfits : (byte 0).length.toNat * (UInt16.ofNat count).toNat ≤ 65535 := by
    rw [UInt16.toNat_ofNat_of_lt' (show count < 65536 by omega)]
    show 1 * count ≤ 65535
    omega
  exact ofTokens_of_reads (.times rfl (isWord_ofNat h) (.byte rfl) rfl hfits)

theorem toNat_length_zeroBytes (h : count ≤ 65535) : (zeroBytes count).length.toNat = count := by
  rw [toNat_length_of_ofTokens (ofTokens_zeroBytes h)]
  show 1 * (UInt16.ofNat count).toNat = count
  rw [UInt16.toNat_ofNat_of_lt' (show count < 65536 by omega), Nat.one_mul]

theorem encode_zeroBytes (h : count ≤ 65535) (strict : Bool) (labels : LabelTable) :
    (zeroBytes count).encode strict labels = .ok (List.replicate count 0) := by
  show Except.ok (List.replicate (UInt16.ofNat count).toNat [(0 : UInt8)]).flatten = _
  rw [UInt16.toNat_ofNat_of_lt' (show count < 65536 by omega), List.flatten_replicate_singleton]

end Instruction

namespace Program

/-- One more statement adds its bytes at the end. -/
theorem encodeOnto_concat {p : Program} {st : Statement} {code : Bytes}
    (h : p.encodeStatement st = .ok code) (done : List Bytes) (sts : List Statement) :
    p.encodeOnto done (sts ++ [st]) = (p.encodeOnto done sts).map (· ++ code) := by
  induction sts generalizing done with
  | nil =>
    simp only [List.nil_append, encodeOnto, h]
    show Except.ok (code :: done).reverse.flatten = .ok (done.reverse.flatten ++ code)
    rw [List.reverse_cons, List.flatten_append, List.flatten_singleton]
  | cons st' sts ih =>
    rw [List.cons_append, encodeOnto, encodeOnto]
    cases p.encodeStatement st' with
    | ok code' => exact ih (code' :: done)
    | error e => rfl

end Program

/-! ### Reading the line -/

namespace Reading

theorem length_ofChars_le (cs : List Char) : (Bytes.ofChars cs).length ≤ 4 * cs.length := by
  induction cs with
  | nil => exact Nat.le_refl 0
  | cons c cs ih =>
    have hc := Char.utf8Size_le_four c
    rw [Bytes.ofChars_cons, List.length_append, String.length_utf8EncodeChar, List.length_cons]
    omega

theorem fits_paddingLine {size : Nat} (hsize : size ≤ 65535) :
    fits (Token.paddingLine size) = true := by
  have hdigits : (Text.decimal size).length ≤ 5 :=
    (Nat.length_toDigits_le_iff (by decide) (by decide)).mpr (by omega)
  have hlength := length_ofChars_le
    ("times (".toList ++ (Text.decimal size ++ " - ($ - $$)) 0x00".toList))
  have hfirst : "times (".toList.length = 7 := rfl
  have hlast : " - ($ - $$)) 0x00".toList.length = 17 := rfl
  rw [List.length_append, List.length_append, hfirst, hlast] at hlength
  have hlimit : (Token.paddingLine size).length < 65536 := by
    rw [Token.paddingLine]
    omega
  exact decide_eq_true hlimit

theorem dropReturn_paddingLine (size : Nat) :
    dropReturn (Token.paddingLine size) = Token.paddingLine size := by
  have hlast : (Token.paddingLine size).getLast? = some 0x30 := by
    rw [Token.paddingLine, Bytes.ofChars_append, Bytes.ofChars_append, ← List.append_assoc,
      List.getLast?_append]
    rfl
  rw [dropReturn, hlast, if_neg (by decide)]

end Reading

namespace Assembler

variable {a : Assembler} {lines : List Bytes} {s : Sweep} {start : UInt16} {size target : Nat}

/-! ### The current segment -/

/-- **The segment that a program ends in**: its last segment starts at the given address and holds
the given number of bytes. -/
structure CurrentSegment (a : Assembler) (lines : List Bytes) (p : Program) (start : UInt16)
    (size : Nat) : Prop where
  /-- The address at which the segment starts. -/
  starts : a.segment? lines (a.segmentLine lines lines.length) = some start
  /-- The total length of the statements behind the line on which it starts. -/
  holds : Statement.total (p.statements.filter fun st =>
    a.segmentLine lines lines.length < st.lineNo) = size

/-- The state of the sweep knows the current segment. -/
theorem currentSegment_iff (hs : a.after lines = some s) {strict : Bool} :
    a.CurrentSegment lines ⟨s.statements.toList, s.labels, strict⟩ start size ↔
      s.location.start = start ∧ s.reach = start.toNat + size := by
  have htake : a.after (lines.take lines.length) = some s := by
    rw [List.take_length]
    exact hs
  have hseg := segment?_segmentLine (Nat.le_refl _) htake
  have hreach := reach_eq_start_add (Nat.le_refl _) htake
  rw [Sweep.lengthSince] at hreach
  constructor
  · rintro ⟨hstarts, hholds⟩
    obtain rfl : s.location.start = start := Option.some.inj (hseg.symm.trans hstarts)
    refine ⟨rfl, ?_⟩
    rw [hreach, ← hholds]
  · rintro ⟨rfl, hsize⟩
    refine ⟨hseg, ?_⟩
    show Statement.total (s.statements.toList.filter _) = size
    omega

/-- Below the end of the address space, the location counter is the end of the code. -/
theorem toNat_current_of_after (hs : a.after lines = some s) (hreach : s.reach ≤ 65535) :
    s.location.current.toNat = s.reach := by
  have hlt : s.reach < 65536 := by omega
  rw [(reach_of_after hs).2]
  exact Nat.mod_eq_of_lt hlt

/-- The statement of the padding line, which stands behind some lines. -/
def paddingStatement (lines : List Bytes) (s : Sweep) (size target : Nat) : Statement :=
  ⟨lines.length + 1, Token.paddingLine target, s.location.current,
    Instruction.zeroBytes (target - size)⟩

/-- **The sweep places the padding line where the segment ends.** -/
theorem exists_after_paddingLine (hs : a.after lines = some s)
    (hstart : s.location.start = start) (hreach : s.reach = start.toNat + size)
    (hroom : start.toNat + size ≤ 65535) (hsize : size ≤ target) (htarget : target ≤ 65535)
    (hend : start.toNat + target ≤ 65536) :
    ∃ s', a.after (lines ++ [Token.paddingLine target]) = some s' ∧ s'.location.start = start ∧
      s'.reach = start.toNat + target ∧ s'.labels = s.labels ∧
      s'.statements.toList = s.statements.toList ++ [paddingStatement lines s size target] := by
  have hcurrent : s.location.current.toNat = start.toNat + size := by
    rw [toNat_current_of_after hs (by omega), hreach]
  have hcount : s.location.start.toNat + target - s.location.current.toNat = target - size := by
    rw [hstart, hcurrent]
    omega
  have htokens : Token.ofLine s.location (Token.paddingLine target) =
      .ok [.ofKind .times, .number (Int32.ofNat (target - size)), .byte 0] := by
    have hle : s.location.current.toNat ≤ s.location.start.toNat + target := by
      rw [hstart, hcurrent]
      omega
    rw [Token.ofLine_paddingLine htarget hle, hcount]
  have hlength : (Instruction.zeroBytes (target - size)).length.toNat = target - size :=
    Instruction.toNat_length_zeroBytes (by omega)
  have hreach' : s.reach + (Instruction.zeroBytes (target - size)).length.toNat =
      start.toNat + target := by
    rw [hlength, hreach]
    omega
  have hfits : s.reach + (Instruction.zeroBytes (target - size)).length.toNat ≤
      Sweep.addressSpace := by
    rw [hreach']
    exact hend
  have hafter {s' : Sweep}
      (hadv : s.Advances a.verbose (lines.length + 1) (Token.paddingLine target) s') :
      a.after (lines ++ [Token.paddingLine target]) = some s' := by
    rw [after_append, hs, Option.bind_some, Sweep.run?_cons_eq_some_iff]
    exact ⟨s', hadv, rfl⟩
  refine ⟨_, hafter (.place htokens (fun hsome => by cases hsome)
    (Instruction.ofTokens_zeroBytes (by omega)) rfl hfits), hstart, hreach', ?_, Array.toList_push⟩
  show (Sweep.entered _ _ _ _ _).labels = _
  rw [Sweep.entered_labels]
  rfl

/-! ### Padded programs -/

/-- **A padded program**: `q` is the program `p` of some lines with the statement `pad` behind it,
which brings the current segment from its size to a target size. -/
structure Padded (a : Assembler) (lines : List Bytes) (start : UInt16) (size target : Nat)
    (p q : Program) (pad : Statement) : Prop where
  /-- The statement stands behind all others. -/
  statements : q.statements = p.statements ++ [pad]
  /-- The names keep their addresses. -/
  labels : q.labels = p.labels
  /-- The statement comes from the line behind the others. -/
  line : pad.lineNo = lines.length + 1 ∧ pad.line = Token.paddingLine target
  /-- It starts where the segment ended. -/
  address : pad.address.toNat = start.toNat + size
  /-- It has as many bytes as were missing. -/
  length : pad.length.toNat = target - size
  /-- So the segment has the target size. -/
  segment : a.CurrentSegment (lines ++ [Token.paddingLine target]) q start target
  /-- It is encoded as zero bytes. -/
  zeros : q.encodeStatement pad = .ok (List.replicate (target - size) 0)
  /-- The machine code has these bytes at its end, and is otherwise the same. -/
  code : q.encode = p.encode.map (· ++ List.replicate (target - size) 0)

/-- **Padding is exact.**  If the program of a source ends in a segment with some bytes, and the
target is a size that is not smaller and still lies inside the address space, then the source with
the padding line behind it is accepted, and that line adds as many zero bytes as the segment needs
to have the target size. -/
theorem padded_of_parse (a : Assembler) (source padded : Bytes) (p : Program) (start : UInt16)
    (size target : Nat) (hparse : a.parse source = .ok p)
    (hsegment : a.CurrentSegment (Reading.ofBytes source).lines p start size)
    (hroom : start.toNat + size ≤ 65535) (hsize : size ≤ target) (htarget : target ≤ 65535)
    (hend : start.toNat + target ≤ 65536)
    (hpadded : Reading.splitLines padded =
      Reading.splitLines source ++ [Token.paddingLine target]) :
    ∃ q pad, a.parse padded = .ok q ∧
      a.Padded (Reading.ofBytes source).lines start size target p q pad := by
  obtain ⟨hfits, s, hs, rfl⟩ := parse_eq_ok_iff_lines.mp hparse
  rw [Reading.lines_ofBytes hfits] at hsegment ⊢
  set lines := (Reading.splitLines source).map Reading.dropReturn with hlines
  obtain ⟨hstart, hreach⟩ := (currentSegment_iff hs).mp hsegment
  obtain ⟨s', hs', hstart', hreach', hlabels', hstatements'⟩ :=
    exists_after_paddingLine hs hstart hreach hroom hsize htarget hend
  have hparse' : a.parse padded = .ok ⟨s'.statements.toList, s'.labels, a.strict⟩ := by
    refine parse_eq_ok_iff_lines.mpr ⟨?_, s', ?_, rfl⟩
    · rw [hpadded, List.forall_mem_append, List.forall_mem_singleton]
      exact ⟨hfits, Reading.fits_paddingLine htarget⟩
    · rw [hpadded, List.map_append, List.map_singleton, Reading.dropReturn_paddingLine, ← hlines]
      exact hs'
  have hzeros (p : Program) : p.encodeStatement (paddingStatement lines s size target) =
      .ok (List.replicate (target - size) 0) := by
    have hcount : target - size ≤ 65535 := by omega
    rw [Program.encodeStatement, paddingStatement, Instruction.encode_zeroBytes hcount]
  refine ⟨_, paddingStatement lines s size target, hparse', ?_⟩
  constructor
  case statements => exact hstatements'
  case labels => exact hlabels'
  case line => exact ⟨rfl, rfl⟩
  case address =>
    rw [paddingStatement, toNat_current_of_after hs (by omega), hreach]
  case length => exact Instruction.toNat_length_zeroBytes (by omega)
  case segment => exact (currentSegment_iff hs').mpr ⟨hstart', hreach'⟩
  case zeros => exact hzeros _
  case code =>
    rw [Program.encode, Program.encode, hstatements', hlabels',
      Program.encodeOnto_concat (hzeros _)]
    -- the bytes of a statement depend on the names and the mode only
    apply congrArg
    apply Program.encodeOnto_congr
    intro st hst
    rfl

/-- A segment of two instructions behind an `org` is filled up to the end of the address space. -/
theorem padded_to_end :
    ∃ (a : Assembler) (source padded : Bytes) (p q : Program) (pad : Statement),
      source = Bytes.ofString "hlt\norg 0xFFF0\nloop: lodsb\njmp loop" ∧
      padded = source ++ Bytes.ofString "\ntimes (16 - ($ - $$)) 0x00\n" ∧
      a.parse source = .ok p ∧ a.CurrentSegment (Reading.ofBytes source).lines p 0xFFF0 3 ∧
      a.parse padded = .ok q ∧ pad.address.toNat = 0xFFF3 ∧ pad.length.toNat = 13 ∧
      a.Padded (Reading.ofBytes source).lines 0xFFF0 3 16 p q pad ∧
      q.encode = .ok ([0xF4, 0xAC, 0xEB, 0xFD] ++ List.replicate 13 0) := by
  let a : Assembler := { origin := 0x7C00 }
  let source := Bytes.ofString "hlt\norg 0xFFF0\nloop: lodsb\njmp loop"
  let padded := source ++ Bytes.ofString "\ntimes (16 - ($ - $$)) 0x00\n"
  let loop := Bytes.ofString "loop"
  let p : Program :=
    ⟨[⟨1, Bytes.ofString "hlt", 0x7C00, .simple 0xF4⟩,
      ⟨3, Bytes.ofString "loop: lodsb", 0xFFF0, .simple 0xAC⟩,
      ⟨4, Bytes.ofString "jmp loop", 0xFFF1, .jump 0xEB 0xFFF1 (.label loop)⟩],
      LabelTable.empty.bind loop 0xFFF0, false⟩
  have hparse : a.parse source = .ok p := rfl
  have hsegment : a.CurrentSegment (Reading.ofBytes source).lines p 0xFFF0 3 :=
    ⟨by decide +kernel, by decide +kernel⟩
  have hpadded : Reading.splitLines padded =
      Reading.splitLines source ++ [Token.paddingLine 16] := by decide +kernel
  obtain ⟨q, pad, hq, hpad⟩ := padded_of_parse a source padded p 0xFFF0 3 16 hparse hsegment
    (by decide) (by decide) (by decide) (by decide) hpadded
  have hcode : q.encode = .ok ([0xF4, 0xAC, 0xEB, 0xFD] ++ List.replicate 13 0) := by
    rw [hpad.code]
    rfl
  exact ⟨a, source, padded, p, q, pad, rfl, rfl, hparse, hsegment, hq, hpad.address, hpad.length,
    hpad, hcode⟩

end Assembler

end BootSector
