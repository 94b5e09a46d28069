import BootSector.Proofs.FirstFault
import BootSector.Proofs.Rendering
import BootSector.Proofs.Resumption
import BootSector.SourceText

/-!
# Lines that say nothing

A line of blanks, or with nothing but a comment behind them, has no tokens (`ofLine_of_silent`).  It
only counts: the lines behind it get the next number.  So when such lines are added to a source, the
sweep over the enlarged source runs beside the sweep over the source, ahead of it by the number of
lines that were added so far (`Sweep.Spread`, kept line by line in `none_or_spread`).

A `MarkedLine` is a line of the enlarged source with the mark whether it was added, and
`addedBefore` counts the added lines in front of a line of the source.  All that changes in the
program, and in an error of either sweep, are the numbers of lines, and they grow by that count.
-/

namespace BootSector

/-! ### Silent lines -/

namespace Text.Utf8

variable {b : UInt8} {bs rest : Bytes} {c : Char} {more : Nat}

theorem toNat_of_scalar? {least n : Nat} (h : scalar? least n = some c) :
    c.toNat = n ∧ least ≤ n := by
  by_cases hvalid : n.isValidChar
  · rw [scalar?, dif_pos hvalid] at h
    by_cases hleast : least ≤ n
    · rw [if_pos hleast] at h
      obtain rfl := Option.some.inj h
      exact ⟨rfl, hleast⟩
    · rw [if_neg hleast] at h
      cases h
  · rw [scalar?, dif_neg hvalid] at h
    cases h

/-- A character is its one byte, or it is not ASCII. -/
theorem ascii_or_of_lead? (h : lead? b rest = some (c, more)) :
    c.toNat = b.toNat ∨ 0x80 ≤ c.toNat := by
  have hlong {least n k : Nat} (hleast : 0x80 ≤ least)
      (hc : (scalar? least n).map (·, k) = some (c, more)) : 0x80 ≤ c.toNat := by
    obtain ⟨c', hc', hpair⟩ := Option.map_eq_some_iff.mp hc
    obtain ⟨rfl, -⟩ := Prod.mk.inj hpair
    obtain ⟨hn, hle⟩ := toNat_of_scalar? hc'
    omega
  unfold lead? at h
  dsimp only at h
  split_ifs at h
  · obtain ⟨c', hc', hpair⟩ := Option.map_eq_some_iff.mp h
    obtain ⟨rfl, -⟩ := Prod.mk.inj hpair
    exact .inl (toNat_of_scalar? hc').1
  · split at h
    · obtain ⟨t₁, -, hc⟩ := Option.bind_eq_some_iff.mp h
      exact .inr (hlong (by decide) hc)
    · cases h
  · split at h
    · obtain ⟨t₁, -, h⟩ := Option.bind_eq_some_iff.mp h
      obtain ⟨t₂, -, hc⟩ := Option.bind_eq_some_iff.mp h
      exact .inr (hlong (by decide) hc)
    · cases h
  · split at h
    · obtain ⟨t₁, -, h⟩ := Option.bind_eq_some_iff.mp h
      obtain ⟨t₂, -, h⟩ := Option.bind_eq_some_iff.mp h
      obtain ⟨t₃, -, hc⟩ := Option.bind_eq_some_iff.mp h
      exact .inr (hlong (by decide) hc)
    · cases h

/-- An ASCII character that is read from some bytes is one of them. -/
theorem ofAscii_mem_of_decode (hc : c.toNat < 0x80) (h : c ∈ decode bs) :
    Bytes.ofAscii c ∈ bs := by
  -- by the length of the bytes, since a character may take several
  induction hlen : bs.length using Nat.strong_induction_on generalizing bs with
  | _ len ih =>
    cases bs with
    | nil => cases h
    | cons b rest =>
      rw [decode_cons] at h
      rcases List.mem_cons.mp h with hfirst | hlater
      · have hb : c.toNat = b.toNat := by
          unfold first at hfirst
          split at hfirst
          · rename_i hlead
            obtain rfl := hfirst
            exact (ascii_or_of_lead? hlead).resolve_right (Nat.not_le.mpr hc)
          · obtain rfl : c = replacement := hfirst
            exact absurd hc (by decide)
        have hbyte : Bytes.ofAscii c = b := by rw [Bytes.ofAscii, hb, UInt8.ofNat_toNat]
        rw [hbyte]
        exact List.mem_cons_self
      · have hshort : (rest.drop (first b rest).2).length < len := by
          rw [← hlen, List.length_drop, List.length_cons]
          omega
        exact List.mem_cons_of_mem b (List.mem_of_mem_drop (ih _ hshort hlater rfl))

end Text.Utf8

namespace Token

variable {loc : Location} {seen : List Token} {gap cs : List Char} {line text : Bytes}

/-- **A line that says nothing**: blanks, and behind them a comment or nothing. -/
inductive Silent : Bytes → Prop where
  | blanks {gap : List Char} (hgap : ∀ c ∈ gap, Text.isBlank c = true) :
    Silent (Bytes.ofChars gap)
  | comment {gap : List Char} {text : Bytes} (hgap : ∀ c ∈ gap, Text.isBlank c = true)
    (htext : Reading.newline ∉ text) : Silent (Bytes.ofChars gap ++ Bytes.ofAscii ';' :: text)

/-- The scanner passes over blanks. -/
theorem scanOnto_blanks (h : ∀ c ∈ gap, Text.isBlank c = true) (rest : List Char) :
    scanOnto loc seen 0 (gap ++ rest) = scanOnto loc seen 0 rest := by
  induction gap with
  | nil => rfl
  | cons c gap ih =>
    have hblank : Text.isBlank c = true := h c List.mem_cons_self
    have hcomment : c ≠ ';' := by
      rintro rfl
      exact absurd hblank (by decide)
    have hlexeme : lexeme loc seen.head? c (gap ++ rest) = .ok (none, 0) := by
      rw [lexeme.eq_def, if_neg hcomment, if_pos hblank]
    rw [List.cons_append, scanOnto, hlexeme]
    exact ih fun d hd => h d (List.mem_cons_of_mem c hd)

/-- The scanner passes over a comment, up to the end of the line. -/
theorem scanOnto_comment (h : '\n' ∉ cs) : scanOnto loc seen 0 (';' :: cs) = .ok seen.reverse := by
  have htake : cs.takeWhile (· ≠ '\n') = cs := by
    rw [List.takeWhile_eq_self_iff]
    intro c hc
    simpa using fun hnewline : c = '\n' => h (hnewline ▸ hc)
  have hlexeme : lexeme loc seen.head? ';' cs = .ok (none, cs.length) := by
    rw [lexeme.eq_def, if_pos rfl, htake]
  rw [scanOnto, hlexeme]
  dsimp only
  rw [scanOnto_drop, List.drop_length]
  rfl

/-- The characters of a comment behind blanks. -/
theorem exists_decode_comment (gap : List Char) (htext : Reading.newline ∉ text) :
    ∃ cs, Text.Utf8.decode (Bytes.ofChars gap ++ Bytes.ofAscii ';' :: text) = gap ++ ';' :: cs ∧
      '\n' ∉ cs := by
  have hsemicolon : Text.Utf8.decode (Bytes.ofAscii ';' :: text) =
      ';' :: Text.Utf8.decode text := by
    rw [Text.Utf8.decode_cons]
    rfl
  refine ⟨Text.Utf8.decode text, by rw [Text.Utf8.decode_ofChars_append, hsemicolon], ?_⟩
  exact fun hmem => htext (Text.Utf8.ofAscii_mem_of_decode (by decide) hmem)

/-- The scanner passes over a silent line. -/
theorem scanOnto_silent (h : Silent line) (loc : Location) (seen : List Token) :
    scanOnto loc seen 0 (Text.Utf8.decode line) = .ok seen.reverse := by
  cases h with
  | @blanks gap hgap =>
    have hpassed := @scanOnto_blanks loc seen gap hgap []
    rw [List.append_nil] at hpassed
    rw [Text.Utf8.decode_ofChars, hpassed]
    rfl
  | @comment gap text hgap htext =>
    obtain ⟨cs, hdecode, hnewline⟩ := exists_decode_comment gap htext
    rw [hdecode, scanOnto_blanks hgap, scanOnto_comment hnewline]

/-- **A silent line has no tokens**, at any location. -/
theorem ofLine_of_silent (h : Silent line) (loc : Location) : ofLine loc line = .ok [] := by
  rw [ofLine, scan, scanOnto_silent h]
  rfl

/-- The line that is written for a comment is silent. -/
theorem silent_comment (h : Reading.newline ∉ text) : Silent (Bytes.ofString "; " ++ text) :=
  @Silent.comment [] (0x20 :: text) (fun _ hc => (List.not_mem_nil hc).elim)
    (List.not_mem_cons_of_ne_of_not_mem (by decide) h)

end Token

/-! ### Added lines -/

/-- **A line of an enlarged source**: one of the source itself, or one that was added. -/
inductive MarkedLine where
  | own (line : Bytes)
  | added (line : Bytes)
  deriving DecidableEq, Repr

namespace MarkedLine

/-- The line without its mark. -/
def line : MarkedLine → Bytes
  | own line | added line => line

/-- The line, if it is one of the source. -/
def own? : MarkedLine → Option Bytes
  | own line => some line
  | added _ => none

/-- The lines of the source. -/
def ownLines (ls : List MarkedLine) : List Bytes := ls.filterMap own?

/-- The lines of the enlarged source. -/
def allLines (ls : List MarkedLine) : List Bytes := ls.map line

/-- **How many lines were added before a line of the source**, the `n`-th, counted from zero. -/
def addedBefore : List MarkedLine → Nat → Nat
  | [], _ => 0
  | added _ :: rest, n => addedBefore rest n + 1
  | own _ :: _, 0 => 0
  | own _ :: rest, n + 1 => addedBefore rest n

/-- **The new number of a line of the source**: it grows by the number of lines added before. -/
def renumber (ls : List MarkedLine) (number : Nat) : Nat := number + addedBefore ls (number - 1)

variable {ls more : List MarkedLine} {n : Nat}

theorem ownLines_append (ls more : List MarkedLine) :
    ownLines (ls ++ more) = ownLines ls ++ ownLines more :=
  List.filterMap_append

theorem allLines_append (ls more : List MarkedLine) :
    allLines (ls ++ more) = allLines ls ++ allLines more :=
  List.map_append

/-- What is added later does not count. -/
theorem addedBefore_append (h : n < (ownLines ls).length) :
    addedBefore (ls ++ more) n = addedBefore ls n := by
  induction ls generalizing n with
  | nil => cases h
  | cons l ls ih =>
    cases l with
    | added line =>
      have hrest : n < (ownLines ls).length := h
      rw [List.cons_append, addedBefore, addedBefore, ih hrest]
    | own line =>
      cases n with
      | zero => rfl
      | succ n =>
        have hrest : n < (ownLines ls).length := Nat.lt_of_succ_lt_succ h
        rw [List.cons_append, addedBefore, addedBefore, ih hrest]

/-- The place of a line of the source among all lines. -/
theorem length_add_addedBefore (ls : List MarkedLine) (line : Bytes) (more : List MarkedLine) :
    (ownLines ls).length + addedBefore (ls ++ own line :: more) (ownLines ls).length =
      ls.length := by
  induction ls with
  | nil => rfl
  | cons l ls ih =>
    cases l with
    | added added => rw [List.length_cons, ← ih]; rfl
    | own first =>
      have hown : ownLines (own first :: ls) = first :: ownLines ls := rfl
      rw [hown, List.length_cons, List.cons_append, addedBefore, List.length_cons, ← ih]
      omega

/-- The lines around a line of the source. -/
theorem exists_split {line : Bytes} (h : (ownLines ls)[n]? = some line) :
    ∃ before after, ls = before ++ own line :: after ∧ (ownLines before).length = n := by
  induction ls generalizing n with
  | nil => cases h
  | cons l ls ih =>
    cases l with
    | added added =>
      obtain ⟨before, after, rfl, hlength⟩ := ih h
      exact ⟨.added added :: before, after, rfl, hlength⟩
    | own first =>
      cases n with
      | zero =>
        obtain rfl := Option.some.inj h
        exact ⟨[], ls, rfl, rfl⟩
      | succ n =>
        obtain ⟨before, after, rfl, hlength⟩ := ih h
        exact ⟨.own first :: before, after, rfl, congrArg (· + 1) hlength⟩

/-- **A line of the source stands under its new number** among all lines. -/
theorem getElem?_allLines {line : Bytes} (h : (ownLines ls)[n]? = some line) :
    (allLines ls)[n + addedBefore ls n]? = some line := by
  obtain ⟨before, after, rfl, rfl⟩ := exists_split h
  have hlength : (allLines before).length = before.length := List.length_map _
  rw [length_add_addedBefore, allLines_append, ← hlength, List.getElem?_append_right (Nat.le_refl _),
    Nat.sub_self]
  rfl

end MarkedLine

/-! ### Renumbered programs -/

/-- The statement with another line number. -/
def Statement.renumbered (f : Nat → Nat) (st : Statement) : Statement :=
  { st with lineNo := f st.lineNo }

/-- The error with another line number, if it stands on a line. -/
def AssemblyError.renumbered (f : Nat → Nat) : AssemblyError → AssemblyError
  | onLine number line fault => onLine (f number) line fault
  | inPredefine name fault => inPredefine name fault

namespace Program

variable {f : Nat → Nat} {p : Program}

/-- **The program with other line numbers.**  Everything else stays as it is. -/
def renumbered (f : Nat → Nat) (p : Program) : Program :=
  { p with statements := p.statements.map (Statement.renumbered f) }

theorem encodeOnto_renumbered (done : List Bytes) (sts : List Statement) :
    (p.renumbered f).encodeOnto done (sts.map (Statement.renumbered f)) =
      (p.encodeOnto done sts).mapError (AssemblyError.renumbered f) := by
  induction sts generalizing done with
  | nil => rfl
  | cons st sts ih =>
    have hst : (p.renumbered f).encodeStatement (st.renumbered f) =
        (p.encodeStatement st).mapError (AssemblyError.renumbered f) := by
      simp only [encodeStatement, renumbered, Statement.renumbered]
      cases st.instruction.encode p.strict p.labels <;> rfl
    rw [List.map_cons, encodeOnto, encodeOnto, hst]
    cases p.encodeStatement st with
    | ok code => exact ih (code :: done)
    | error e => rfl

/-- The numbers of lines play no part in the second sweep, except in its errors. -/
theorem encode_renumbered :
    (p.renumbered f).encode = p.encode.mapError (AssemblyError.renumbered f) :=
  encodeOnto_renumbered [] p.statements

end Program

/-- An error in the predefinitions stands on no line. -/
theorem Predefine.renumbered_of_bindFrom {evaluate : Formula.Evaluator} {env : Formula.Env}
    {labels : LabelTable} {defs : List Predefine} {e : AssemblyError} (f : Nat → Nat)
    (h : bindFrom evaluate env labels defs = .error e) : e.renumbered f = e := by
  induction defs generalizing env labels with
  | nil => cases h
  | cons d defs ih =>
    rw [bindFrom] at h
    split at h
    · obtain rfl := Except.error.inj h
      rfl
    · exact ih h

/-! ### The two sweeps -/

namespace Sweep

/-- **The state over an enlarged source** beside the one over the source: all is the same but the
numbers of lines. -/
structure Spread (f : Nat → Nat) (s t : Sweep) : Prop where
  location : t.location = s.location
  reach : t.reach = s.reach
  labels : t.labels = s.labels
  statements : t.statements.toList = s.statements.toList.map (Statement.renumbered f)

variable {f g : Nat → Nat} {s t : Sweep} {line : Bytes}

/-- Such states go on alike. -/
theorem Spread.alike (h : Spread f s t) (d : Nat) :
    Alike d s.statements.toList t.statements.toList s t where
  location := h.location
  reach := h.reach
  labels := h.labels
  statements := ⟨[], (List.append_nil _).symm, (List.append_nil _).symm⟩

/-- A silent line only counts. -/
theorem run?_silent (hline : Token.Silent line) (verbose : Bool) (number : Nat) :
    t.run? verbose number [line] = some (t.noted verbose number line) := by
  have hadv : Advances verbose t number line (t.entered verbose number line []) :=
    .bare (Token.ofLine_of_silent hline t.location) (fun hsome => by cases hsome) rfl
  exact run?_cons_eq_some_iff.mpr ⟨_, hadv, rfl⟩

/-- A line places statements with its own number only. -/
theorem Advances.lineNo_of_mem {verbose : Bool} {number : Nat} {more : List Statement}
    {st : Statement} (h : Advances verbose s number line t)
    (hmore : t.statements.toList = s.statements.toList ++ more) (hst : st ∈ more) :
    st.lineNo = number := by
  cases h with
  | bare | org =>
    simp only [entered_statements] at hmore
    rw [List.self_eq_append_right.mp hmore] at hst
    cases hst
  | place =>
    simp only [Array.toList_push] at hmore
    obtain rfl := List.append_cancel_left hmore
    rw [List.mem_singleton.mp hst]

end Sweep

namespace Assembler

open MarkedLine

variable {a : Assembler} {ls : List MarkedLine} {s t : Sweep} {lines : List Bytes}

/-- The lines of statements are lines of the source. -/
theorem lineNo_of_after (h : a.after lines = some s) {st : Statement}
    (hst : st ∈ s.statements.toList) : 0 < st.lineNo ∧ st.lineNo ≤ lines.length := by
  obtain ⟨i, hi⟩ := List.mem_iff_getElem?.mp hst
  obtain ⟨n, -, hn, hline, -⟩ := exists_placedIn h hi
  have hlt : n < lines.length := (List.getElem?_eq_some_iff.mp hline).1
  omega

/-- Old statements keep their new numbers when more lines come. -/
theorem map_renumbered_append (h : a.after (ownLines ls) = some s) (more : List MarkedLine) :
    s.statements.toList.map (Statement.renumbered (renumber (ls ++ more))) =
      s.statements.toList.map (Statement.renumbered (renumber ls)) := by
  refine List.map_congr_left fun st hst => ?_
  obtain ⟨hpos, hle⟩ := lineNo_of_after h hst
  rw [Statement.renumbered, renumber, addedBefore_append (by omega)]
  rfl

/-- **The sweep gets through the lines of the source and through all lines, or through neither.** -/
theorem none_or_spread (hsilent : ∀ line, .added line ∈ ls → Token.Silent line) :
    (a.after (ownLines ls) = none ∧ a.after (allLines ls) = none) ∨
      ∃ s t, a.after (ownLines ls) = some s ∧ a.after (allLines ls) = some t ∧
        Sweep.Spread (renumber ls) s t := by
  induction ls using List.reverseRecOn with
  | nil =>
    cases h : a.after [] with
    | none => exact .inl ⟨h, h⟩
    | some s =>
      obtain ⟨labels, -, rfl⟩ := eq_start_of_after_nil h
      exact .inr ⟨_, _, h, h, rfl, rfl, rfl, rfl⟩
  | append_singleton ls l ih =>
    have hbefore : ∀ line, .added line ∈ ls → Token.Silent line := fun line hline =>
      hsilent line (List.mem_append_left _ hline)
    rw [ownLines_append, allLines_append, after_append, after_append]
    rcases ih hbefore with ⟨hs, ht⟩ | ⟨s, t, hs, ht, hspread⟩
    · exact .inl ⟨by rw [hs]; rfl, by rw [ht]; rfl⟩
    rw [hs, ht]
    cases l with
    | added line =>
      -- the sweep over the source stays where it is
      have hline := hsilent line (List.mem_append_right _ (List.mem_singleton.mpr rfl))
      have ht' : t.run? a.verbose ((allLines ls).length + 1) (allLines [.added line]) =
          some (t.noted a.verbose ((allLines ls).length + 1) line) := Sweep.run?_silent hline _ _
      refine .inr ⟨s, _, rfl, ht', ?_, ?_, ?_, ?_⟩
      · rw [Sweep.noted_location, hspread.location]
      · rw [Sweep.noted_reach, hspread.reach]
      · rw [Sweep.noted_labels, hspread.labels]
      · rw [Sweep.noted_statements, hspread.statements, map_renumbered_append hs]
    | own line =>
      -- both sweeps read the line, one of them later by the number of lines added before
      obtain ⟨d, hd⟩ : ∃ d, d = addedBefore (ls ++ [.own line]) (ownLines ls).length := ⟨_, rfl⟩
      have hnumber : (ownLines ls).length + 1 + d = (allLines ls).length + 1 := by
        have hlength := length_add_addedBefore ls line []
        rw [← hd] at hlength
        rw [allLines, List.length_map]
        omega
      have hboth := (hspread.alike d).none_or_some a.verbose ((ownLines ls).length + 1) [line]
      rw [hnumber] at hboth
      rcases hboth with ⟨hs', ht'⟩ | ⟨s', t', hs', ht', halike⟩
      · exact .inl ⟨hs', ht'⟩
      · obtain ⟨more, hmore, hmore'⟩ := halike.statements
        refine .inr ⟨s', t', hs', ht', halike.location, halike.reach, halike.labels, ?_⟩
        rw [hmore', hmore, List.map_append, map_renumbered_append hs, hspread.statements]
        congr 1
        refine List.map_congr_left fun st hst => ?_
        have hlineNo : st.lineNo = (ownLines ls).length + 1 :=
          (Sweep.advances_of_run?_singleton hs').lineNo_of_mem hmore hst
        rw [Statement.later, Statement.renumbered, renumber, hlineNo, Nat.add_sub_cancel, hd]

/-- The first fault of the source is the first fault of the enlarged source. -/
theorem FaultsAt.spread {n : Nat} {line : Bytes} {fault : Fault}
    (hsilent : ∀ line, .added line ∈ ls → Token.Silent line)
    (h : a.FaultsAt (ownLines ls) n line fault) :
    a.FaultsAt (allLines ls) (n + addedBefore ls n) line fault := by
  obtain ⟨hline, s, hs, hfault⟩ := h
  refine ⟨getElem?_allLines hline, ?_⟩
  obtain ⟨before, after, rfl, rfl⟩ := exists_split hline
  have hplace := length_add_addedBefore before line after
  rw [ownLines_append, List.take_left] at hs
  have hbefore : (allLines (before ++ .own line :: after)).take before.length = allLines before := by
    have hlength : (allLines before).length = before.length := List.length_map _
    rw [allLines_append, ← hlength, List.take_left]
  have hsilent' : ∀ line, .added line ∈ before → Token.Silent line := fun line hline =>
    hsilent line (List.mem_append_left _ hline)
  -- the two sweeps reach the line in states that go on alike
  rcases @none_or_spread a before hsilent' with ⟨hnone, -⟩ | ⟨s', t, hs', ht, hspread⟩
  · rw [hs] at hnone
    cases hnone
  · obtain rfl : s = s' := Option.some.inj (hs.symm.trans hs')
    have hstep := ((hspread.alike (before.length - (ownLines before).length)).step a.verbose
      ((ownLines before).length + 1) line).2
    have hnumber : (ownLines before).length + 1 + (before.length - (ownLines before).length) =
        before.length + 1 := by omega
    rw [hnumber, hfault] at hstep
    rw [hplace]
    exact ⟨t, by rw [hbefore, ht], hstep⟩

/-- **Added lines make no difference**, when `enlarged` is `source` with the lines that are marked as
added. -/
structure Transparent (a : Assembler) (ls : List MarkedLine) (source enlarged : Bytes) : Prop where
  /-- Every line of the source is there, at the place of its new number. -/
  numbered (n : Nat) (line : Bytes) : (Reading.ofBytes source).lines[n]? = some line →
    (Reading.ofBytes enlarged).lines[n + addedBefore ls n]? = some line
  /-- The first sweep gives the same program or the same error, but for the numbers of lines. -/
  parse : a.parse enlarged =
    ((a.parse source).map (Program.renumbered (renumber ls))).mapError
      (AssemblyError.renumbered (renumber ls))
  /-- The second sweep gives the same bytes or the same error, but for the number of its line. -/
  encode (p : Program) : a.parse source = .ok p →
    (p.renumbered (renumber ls)).encode = p.encode.mapError (AssemblyError.renumbered (renumber ls))
  /-- So do both sweeps together. -/
  assemble : a.assemble enlarged =
    (a.assemble source).mapError (AssemblyError.renumbered (renumber ls))

theorem parse_enlarged {source enlarged : Bytes}
    (hsilent : ∀ line, .added line ∈ ls → Token.Silent line)
    (hsource : Reading.ofBytes source = { lines := ownLines ls })
    (henlarged : Reading.ofBytes enlarged = { lines := allLines ls }) :
    a.parse enlarged = ((a.parse source).map (Program.renumbered (renumber ls))).mapError
      (AssemblyError.renumbered (renumber ls)) := by
  cases htable : Predefine.table a.evaluate a.origin a.predefines with
  | error e =>
    have herror (text : Bytes) : a.parse text = .error e := by
      simp only [parse, sweep, htable]
    rw [herror, herror]
    exact congrArg Except.error (Predefine.renumbered_of_bindFrom _ htable).symm
  | ok predefined =>
    cases hparse : a.parse source with
    | ok p =>
      obtain ⟨-, s, hs, rfl⟩ := parse_eq_ok_iff.mp hparse
      rw [hsource] at hs
      rcases none_or_spread (a := a) hsilent with ⟨hnone, -⟩ | ⟨s', t, hs', ht, hspread⟩
      · rw [hs] at hnone
        cases hnone
      · obtain rfl : s = s' := Option.some.inj (hs.symm.trans hs')
        refine parse_eq_ok_iff.mpr ⟨by rw [henlarged], t, by rw [henlarged, ht], ?_⟩
        rw [Program.renumbered, hspread.statements, hspread.labels]
    | error e =>
      have hfits : ∀ line ∈ Reading.splitLines source, Reading.fits line = true :=
        Reading.fault_ofBytes_eq_none_iff.mp (by rw [hsource])
      obtain ⟨n, line, fault, hfault, rfl⟩ := (parse_eq_error_iff htable hfits).mp hparse
      rw [hsource] at hfault
      have hspread := hfault.spread hsilent
      have henlarged : (Reading.ofBytes enlarged).lines = allLines ls := by rw [henlarged]
      rw [← henlarged] at hspread
      rw [parse_of_faultsAt hspread, Nat.add_right_comm]
      rfl

/-- **Silent lines are transparent.**  When lines of blanks and comments are added anywhere in a
source, and all lines are short enough to be read, then both sweeps do what they do with the source,
and only the numbers of lines grow, each by the number of lines added before it. -/
theorem transparent_of_silent (a : Assembler) (ls : List MarkedLine) (source enlarged : Bytes)
    (hsilent : ∀ line, .added line ∈ ls → Token.Silent line)
    (hsource : Reading.ofBytes source = { lines := ownLines ls })
    (henlarged : Reading.ofBytes enlarged = { lines := allLines ls }) :
    a.Transparent ls source enlarged := by
  have hparse := parse_enlarged (a := a) hsilent hsource henlarged
  constructor
  case numbered =>
    rw [hsource, henlarged]
    exact fun n line hline => getElem?_allLines hline
  case parse => exact hparse
  case encode => exact fun p _ => Program.encode_renumbered
  case assemble =>
    unfold assemble
    rw [hparse]
    cases a.parse source with
    | ok p => exact Program.encode_renumbered
    | error e => rfl

/-- A source with a missing name, and the same source behind a comment, with another comment and a
line of blanks in it. -/
theorem transparent_around_missing_name :
    ∃ (a : Assembler) (ls : List MarkedLine) (source enlarged line name : Bytes),
      (∀ line, .added line ∈ ls → Token.Silent line) ∧
      Reading.ofBytes source = { lines := ownLines ls } ∧
      Reading.ofBytes enlarged = { lines := allLines ls } ∧ a.Transparent ls source enlarged ∧
      a.assemble source = .error (.onLine 2 line (.labelMissing name)) ∧
      a.assemble enlarged = .error (.onLine 5 line (.labelMissing name)) := by
  let a : Assembler := { strict := true }
  let name := Bytes.ofString "gone"
  let line := Bytes.ofString "jmp gone"
  let source := Bytes.ofString "top: cli\njmp gone"
  let enlarged := ((({} : SourceText).comment (Bytes.ofString "(\"")).text ++
    Bytes.ofString "top: cli\r\n \t\u00a0\r\n\u3000;$ \njmp gone\n;")
  let ls : List MarkedLine :=
    [.added (Bytes.ofString "; " ++ Bytes.ofString "(\""), .own (Bytes.ofString "top: cli"),
      .added (Bytes.ofChars [' ', '\t', '\u00a0']),
      .added (Bytes.ofChars ['\u3000'] ++ Bytes.ofAscii ';' :: Bytes.ofString "$ "), .own line,
      .added (Bytes.ofChars [] ++ [Bytes.ofAscii ';'])]
  have hsilent : ∀ line, .added line ∈ ls → Token.Silent line := by
    intro line hline
    simp only [ls, List.mem_cons, MarkedLine.added.injEq, reduceCtorEq, List.not_mem_nil, or_false,
      false_or] at hline
    rcases hline with rfl | rfl | rfl | rfl
    · exact Token.silent_comment (by decide)
    · exact .blanks (List.all_eq_true.mp (by decide))
    · exact .comment (List.all_eq_true.mp (by decide)) (by decide)
    · exact .comment (List.all_eq_true.mp (by decide)) (by decide)
  have hsource : Reading.ofBytes source = { lines := ownLines ls } := by decide
  have henlarged : Reading.ofBytes enlarged = { lines := allLines ls } := by decide
  have htransparent := transparent_of_silent a ls source enlarged hsilent hsource henlarged
  have herror : a.assemble source = .error (.onLine 2 line (.labelMissing name)) := rfl
  refine ⟨a, ls, source, enlarged, line, name, hsilent, hsource, henlarged, htransparent, herror, ?_⟩
  rw [htransparent.assemble, herror]
  rfl

end Assembler

end BootSector
