import BootSector.Proofs.Placement
import Mathlib.Order.Bounds.Basic

/-!
# The first fault

The first sweep stops at the first line that has a fault, and nothing behind that line matters.
`FaultsAt lines n line fault` says where this is: the lines in front of line `n + 1` have no fault,
and on that line the sweep finds one.  It is the only way to fail (`parse_eq_error_iff`), and it
speaks of the first `n + 1` lines only (`FaultsAt.congr`).

So the sweep accepts every initial part of what it accepts, and the number in an error is the least
number of lines that are refused.  The parts of a source are taken line by line:
`Reading.text lines` is the text of some lines, and `splitLines_text` reads them back.
-/

namespace BootSector

/-! ### Lines of a text -/

namespace Reading

variable {line source other : Bytes} {lines : List Bytes} {n : Nat}

/-- **The text of some lines**, each of them ended by a newline. -/
def text (lines : List Bytes) : Bytes := lines.flatMap (· ++ [newline])

theorem splitLines_cons (b : UInt8) (rest : Bytes) :
    splitLines (b :: rest) = consByte b (splitLines rest) := rfl

/-- What stands in front of a newline is a line. -/
theorem splitLines_append_newline (h : newline ∉ line) (rest : Bytes) :
    splitLines (line ++ newline :: rest) = line :: splitLines rest := by
  induction line with
  | nil => rw [List.nil_append, splitLines_cons, consByte.eq_def, if_pos rfl]
  | cons b line ih =>
    have hb : b ≠ newline := fun hb => h (hb ▸ List.mem_cons_self)
    have hline : newline ∉ line := fun hmem => h (List.mem_cons_of_mem b hmem)
    rw [List.cons_append, splitLines_cons, ih hline, consByte.eq_def, if_neg hb]

/-- A text without a newline is one line, unless it is empty. -/
theorem splitLines_eq_singleton (hne : line ≠ []) (h : newline ∉ line) :
    splitLines line = [line] := by
  induction line with
  | nil => exact absurd rfl hne
  | cons b rest ih =>
    have hb : b ≠ newline := fun hb => h (hb ▸ List.mem_cons_self)
    rw [splitLines_cons, consByte.eq_def, if_neg hb]
    cases rest with
    | nil => rfl
    | cons c rest =>
      rw [ih (List.cons_ne_nil c rest) fun hmem => h (List.mem_cons_of_mem b hmem)]

/-- **Lines are read back from their text.** -/
theorem splitLines_text (h : ∀ line ∈ lines, newline ∉ line) : splitLines (text lines) = lines := by
  induction lines with
  | nil => rfl
  | cons line lines ih =>
    have htext : text (line :: lines) = line ++ newline :: text lines := by
      rw [text, List.flatMap_cons, List.append_assoc, text]
      rfl
    rw [htext, splitLines_append_newline (h line List.mem_cons_self),
      ih fun line' hline' => h line' (List.mem_cons_of_mem line hline')]

/-- A line holds no newline. -/
theorem newline_not_mem (h : line ∈ splitLines source) : newline ∉ line := by
  induction source generalizing line with
  | nil => cases h
  | cons b rest ih =>
    rw [splitLines_cons, consByte.eq_def] at h
    split at h
    · rcases List.mem_cons.mp h with rfl | h
      · exact List.not_mem_nil
      · exact ih h
    · rename_i hb
      split at h
      · rw [List.mem_singleton.mp h, List.mem_singleton]
        exact fun hnewline => hb hnewline.symm
      · rename_i first lines hlines
        rw [hlines] at ih
        rcases List.mem_cons.mp h with rfl | h
        · exact List.not_mem_cons_of_ne_of_not_mem (fun hnewline => hb hnewline.symm)
            (ih List.mem_cons_self)
        · exact ih (List.mem_cons_of_mem first h)

/-- The first lines that are read depend on the first lines of the text only. -/
theorem take_lines_ofBytes (h : (splitLines other).take n = (splitLines source).take n) :
    (ofBytes other).lines.take n = (ofBytes source).lines.take n := by
  simp only [ofBytes, ← List.map_take, List.take_takeWhile, h]

/-- The text of the first lines of a source is read as these lines. -/
theorem ofBytes_text_take (h : ∀ line ∈ splitLines source, fits line = true) (n : Nat) :
    (∀ line ∈ splitLines (text ((splitLines source).take n)), fits line = true) ∧
      (ofBytes (text ((splitLines source).take n))).lines = (ofBytes source).lines.take n := by
  have hsplit : splitLines (text ((splitLines source).take n)) = (splitLines source).take n :=
    splitLines_text fun line hline => newline_not_mem (List.mem_of_mem_take hline)
  have hfits : ∀ line ∈ splitLines (text ((splitLines source).take n)), fits line = true := by
    rw [hsplit]
    exact fun line hline => h line (List.mem_of_mem_take hline)
  exact ⟨hfits, by rw [lines_ofBytes hfits, lines_ofBytes h, hsplit, List.map_take]⟩

end Reading

/-! ### Faults of a run -/

namespace Sweep

variable {verbose : Bool} {s : Sweep} {number : Nat} {lines : List Bytes} {e : AssemblyError}

/-- **A run fails on the first line with a fault**, which it reaches through the lines before it. -/
theorem run_eq_error_iff :
    (s.run verbose number lines).2 = some e ↔
      ∃ n line fault s', lines[n]? = some line ∧
        s.run? verbose number (lines.take n) = some s' ∧
        (s'.step verbose (number + n) line).2 = some fault ∧
        e = .onLine (number + n) line fault := by
  induction lines generalizing s number with
  | nil =>
    constructor
    · intro h
      cases h
    · rintro ⟨n, line, _, _, hline, -⟩
      cases hline
  | cons first rest ih =>
    rw [run]
    rcases hstep : s.step verbose number first with ⟨s₁, _ | fault⟩
    · -- the fault, if there is one, lies behind the first line
      simp only
      rw [ih]
      constructor
      · rintro ⟨n, line, fault, s', hline, hrun, hfault, rfl⟩
        have hnumber : number + 1 + n = number + (n + 1) := by omega
        rw [hnumber] at hfault ⊢
        refine ⟨n + 1, line, fault, s', hline, ?_, hfault, rfl⟩
        simp only [List.take_succ_cons, run?_cons, hstep, hrun]
      · rintro ⟨n, line, fault, s', hline, hrun, hfault, rfl⟩
        cases n with
        | zero =>
          obtain rfl := Option.some.inj hline
          obtain rfl := Option.some.inj hrun
          rw [Nat.add_zero, hstep] at hfault
          cases hfault
        | succ n =>
          have hnumber : number + (n + 1) = number + 1 + n := by omega
          rw [hnumber] at hfault ⊢
          simp only [List.take_succ_cons, run?_cons, hstep] at hrun
          exact ⟨n, line, fault, s', hline, hrun, hfault, rfl⟩
    · constructor
      · intro h
        obtain rfl := Option.some.inj h
        exact ⟨0, first, fault, s, rfl, rfl, by rw [Nat.add_zero, hstep], rfl⟩
      · rintro ⟨n, line, fault', s', hline, hrun, hfault, rfl⟩
        cases n with
        | zero =>
          obtain rfl := Option.some.inj hline
          obtain rfl := Option.some.inj hrun
          rw [Nat.add_zero, hstep] at hfault
          obtain rfl := Option.some.inj hfault
          rfl
        | succ n =>
          simp only [List.take_succ_cons, run?_cons, hstep] at hrun
          cases hrun

end Sweep

/-! ### Faults of a source -/

namespace Assembler

variable {a : Assembler} {lines lines' : List Bytes} {line source : Bytes} {n k : Nat}
  {fault : Fault} {predefined : LabelTable}

/-- **The first fault of some lines**: the sweep gets through the first `n` of them, and the next
line has the fault. -/
def FaultsAt (a : Assembler) (lines : List Bytes) (n : Nat) (line : Bytes) (fault : Fault) : Prop :=
  lines[n]? = some line ∧ ∃ s, a.after (lines.take n) = some s ∧
    (s.step a.verbose (n + 1) line).2 = some fault

/-- The first fault depends on the lines up to it only. -/
theorem FaultsAt.congr (h : a.FaultsAt lines n line fault)
    (hlines : lines'.take (n + 1) = lines.take (n + 1)) : a.FaultsAt lines' n line fault := by
  obtain ⟨hline, s, hs, hfault⟩ := h
  have hbefore : lines'.take n = lines.take n := by
    have htake (l : List Bytes) : l.take n = (l.take (n + 1)).take n := by
      rw [List.take_take, Nat.min_eq_left (Nat.le_succ n)]
    rw [htake lines', hlines, ← htake lines]
  refine ⟨?_, s, hbefore ▸ hs, hfault⟩
  rw [← List.getElem?_take_of_lt (Nat.lt_succ_self n), hlines,
    List.getElem?_take_of_lt (Nat.lt_succ_self n), hline]

/-- The sweep gets through fewer lines than those up to the fault. -/
theorem FaultsAt.exists_after (h : a.FaultsAt lines n line fault) (hk : k ≤ n) :
    ∃ s, a.after (lines.take k) = some s := by
  obtain ⟨-, s, hs, -⟩ := h
  obtain ⟨s', hs'⟩ := exists_after_take k hs
  rw [List.take_take, Nat.min_eq_left hk] at hs'
  exact ⟨s', hs'⟩

/-- The statements of the first lines come first. -/
theorem statements_prefix_of_after {s s' : Sweep} (hs : a.after (lines.take n) = some s)
    (hs' : a.after lines = some s') : s.statements.toList <+: s'.statements.toList := by
  have hmin : lines.take (min n lines.length) = lines.take n := by
    rw [← List.take_take, List.take_length]
  rw [← hmin] at hs
  rw [← List.take_length (l := lines)] at hs'
  obtain ⟨more, hmore, -⟩ := exists_between (Nat.min_le_right _ _) (Nat.le_refl _) hs hs'
  exact ⟨more, hmore.symm⟩

/-- **What is read of a source is refused for its first fault**, whatever ends the reading. -/
theorem parse_of_faultsAt (h : a.FaultsAt (Reading.ofBytes source).lines n line fault) :
    a.parse source = .error (.onLine (n + 1) line fault) := by
  obtain ⟨hline, s, hs, hfault⟩ := h
  unfold after at hs
  unfold parse sweep
  split at hs
  · rename_i labels hlabels
    have hrun : ((Sweep.start a.origin labels).run a.verbose 1 (Reading.ofBytes source).lines).2 =
        some (.onLine (n + 1) line fault) :=
      Sweep.run_eq_error_iff.mpr ⟨n, line, fault, s, hline, hs, by rw [Nat.add_comm, hfault],
        by rw [Nat.add_comm]⟩
    simp only [hlabels, hrun]
  · cases hs

/-- **A source of short lines is refused for its first fault and for nothing else**, if the
predefinitions can be evaluated. -/
theorem parse_eq_error_iff {e : AssemblyError}
    (htable : Predefine.table a.evaluate a.origin a.predefines = .ok predefined)
    (hfits : ∀ line ∈ Reading.splitLines source, Reading.fits line = true) :
    a.parse source = .error e ↔ ∃ n line fault,
      a.FaultsAt (Reading.ofBytes source).lines n line fault ∧ e = .onLine (n + 1) line fault := by
  constructor
  · intro h
    have hread : (Reading.ofBytes source).fault = none :=
      Reading.fault_ofBytes_eq_none_iff.mpr hfits
    unfold parse sweep at h
    simp only [htable, hread] at h
    split at h
    · rename_i e' hrun
      obtain rfl := Except.error.inj h
      obtain ⟨n, line, fault, s, hline, hs, hfault, rfl⟩ := Sweep.run_eq_error_iff.mp hrun
      rw [Nat.add_comm] at hfault ⊢
      refine ⟨n, line, fault, ⟨hline, s, ?_, hfault⟩, rfl⟩
      rw [after, htable]
      exact hs
    · rename_i hnone
      cases hnone
    · cases h
  · rintro ⟨n, line, fault, h, rfl⟩
    exact parse_of_faultsAt h

/-- **The first sweep goes line by line**, over a source that assembler `a` is given. -/
structure PrefixStable (a : Assembler) (source : Bytes) : Prop where
  /-- If the source is accepted, then so is every initial part of it, and the statements of the part
  come first. -/
  accepted (p : Program) (part : Bytes) : a.parse source = .ok p →
    Reading.splitLines part <+: Reading.splitLines source →
    ∃ q, a.parse part = .ok q ∧ q.statements <+: p.statements
  /-- If it is refused, then for a fault on a line.  The number of the line is the least number of
  first lines that are refused, and every other source with these first lines is refused with the
  same error. -/
  refused (e : AssemblyError) : a.parse source = .error e → ∃ n line fault,
    e = .onLine (n + 1) line fault ∧
    IsLeast {k | ∃ e', a.parse (Reading.text ((Reading.splitLines source).take k)) = .error e'}
      (n + 1) ∧
    (Reading.ofBytes source).lines[n]? = some line ∧
    ∀ other, (Reading.splitLines other).take (n + 1) = (Reading.splitLines source).take (n + 1) →
      a.parse other = .error e

/-- **The first sweep is stable under more lines, and stops at the first bad one.**  All lines of the
source are short enough to be read, and the predefinitions can be evaluated. -/
theorem prefixStable_of_fits (a : Assembler) (source : Bytes) (predefined : LabelTable)
    (htable : Predefine.table a.evaluate a.origin a.predefines = .ok predefined)
    (hfits : ∀ line ∈ Reading.splitLines source, Reading.fits line = true) :
    a.PrefixStable source := by
  constructor
  case accepted =>
    intro p part hparse hpart
    obtain ⟨-, s, hs, rfl⟩ := parse_eq_ok_iff.mp hparse
    have hshort : ∀ line ∈ Reading.splitLines part, Reading.fits line = true :=
      fun line hline => hfits line (hpart.subset hline)
    -- the lines of the part are the first lines of the source
    obtain ⟨n, hn⟩ : ∃ n, (Reading.ofBytes part).lines = (Reading.ofBytes source).lines.take n := by
      refine ⟨(Reading.splitLines part).length, ?_⟩
      rw [Reading.lines_ofBytes hshort, Reading.lines_ofBytes hfits, ← List.map_take,
        ← List.prefix_iff_eq_take.mp hpart]
    obtain ⟨t, ht⟩ := exists_after_take n hs
    refine ⟨⟨t.statements.toList, t.labels, a.strict⟩, ?_, ?_⟩
    · refine parse_eq_ok_iff.mpr ⟨Reading.fault_ofBytes_eq_none_iff.mpr hshort, t, ?_, rfl⟩
      rw [hn, ht]
    · exact statements_prefix_of_after ht hs
  case refused =>
    intro e hparse
    obtain ⟨n, line, fault, hfault, rfl⟩ := (parse_eq_error_iff htable hfits).mp hparse
    refine ⟨n, line, fault, rfl, ⟨?_, ?_⟩, hfault.1, ?_⟩
    · refine ⟨_, parse_of_faultsAt (hfault.congr ?_)⟩
      rw [(Reading.ofBytes_text_take hfits (n + 1)).2, List.take_take, Nat.min_self]
    · rintro k ⟨e', he'⟩
      by_contra hk
      obtain ⟨s, hs⟩ := hfault.exists_after (k := k) (by omega)
      obtain ⟨hshort, hlines⟩ := Reading.ofBytes_text_take hfits k
      rw [← hlines] at hs
      have hok := parse_eq_ok_iff.mpr
        ⟨Reading.fault_ofBytes_eq_none_iff.mpr hshort, s, hs, rfl⟩
      rw [he'] at hok
      cases hok
    · intro other hother
      exact parse_of_faultsAt (hfault.congr (Reading.take_lines_ofBytes hother))

/-- The number of the bad line is the least number of first lines that are refused, and what comes
behind that line makes no difference. -/
theorem PrefixStable.refused_onLine {n : Nat} {line : Bytes} {fault : Fault}
    (h : a.PrefixStable source) (hparse : a.parse source = .error (.onLine (n + 1) line fault)) :
    IsLeast {k | ∃ e, a.parse (Reading.text ((Reading.splitLines source).take k)) = .error e}
      (n + 1) ∧
    ∀ other, (Reading.splitLines other).take (n + 1) = (Reading.splitLines source).take (n + 1) →
      a.parse other = .error (.onLine (n + 1) line fault) := by
  obtain ⟨n', line', fault', he, hleast, -, hother⟩ := h.refused _ hparse
  obtain ⟨hn, -, -⟩ := AssemblyError.onLine.inj he
  obtain rfl : n = n' := by omega
  exact ⟨hleast, hother⟩

/-- The first line of a source that is accepted, with a label that is predefined as well; and three
sources that are refused: for a character on the third line, for a jump without a target, and for a
statement that does not fit.  What comes behind the bad line changes nothing. -/
theorem prefixStable_third_line :
    let bytes := Bytes.ofString
    let a : Assembler := { predefines := [⟨bytes "top", bytes "0x10"⟩] }
    let predefined := LabelTable.empty.bind (bytes "top") 0x10
    let halt : Statement := ⟨1, bytes "top: hlt", 0, .simple 0xF4⟩
    let move : Statement := ⟨3, bytes "mov ax 1", 1, .moveWord 0 1⟩
    let p : Program := ⟨[halt], predefined.bind (bytes "top") 0, false⟩
    let q : Program := ⟨[halt, move], predefined.bind (bytes "top") 0, false⟩
    let source := bytes "top: hlt\r\n\nmov ax, 1\nhlt"
    let refused (lines : String) (n : Nat) (line : String) (fault : Fault) : Prop :=
      a.parse (bytes lines) = .error (.onLine n (bytes line) fault)
    Predefine.table a.evaluate a.origin a.predefines = .ok predefined ∧
    (∀ line ∈ Reading.splitLines source, Reading.fits line = true) ∧ a.PrefixStable source ∧
    a.parse (bytes "top: hlt\r\n\nmov ax 1") = .ok q ∧ a.parse (bytes "top: hlt\r\n") = .ok p ∧
    p.statements <+: q.statements ∧
    refused "top: hlt\r\n\nmov ax, 1\nhlt" 3 "mov ax, 1" .unexpectedCharacter ∧
    IsLeast {k | ∃ e, a.parse (Reading.text ((Reading.splitLines source).take k)) = .error e} 3 ∧
    refused "top: hlt\r\n\nmov ax, 1\n(((\njmp" 3 "mov ax, 1" .unexpectedCharacter ∧
    refused "hlt\njmp\nhlt" 2 "jmp" .invalidParameter ∧
    refused "hlt\njmp\nmov ax, 1" 2 "jmp" .invalidParameter ∧
    refused "org 0xFFFF\ntimes 2 0x00" 2 "times 2 0x00" .tooLarge ∧
    refused "org 0xFFFF\ntimes 2 0x00\n(((" 2 "times 2 0x00" .tooLarge := by
  intro bytes a predefined halt move p q source refused
  have htable : Predefine.table a.evaluate a.origin a.predefines = .ok predefined := rfl
  have hstable (text : Bytes)
      (hfits : ∀ line ∈ Reading.splitLines text, Reading.fits line = true) : a.PrefixStable text :=
    prefixStable_of_fits a text predefined htable hfits
  have hwhole : a.parse (bytes "top: hlt\r\n\nmov ax 1") = .ok q := rfl
  have hpart : a.parse (bytes "top: hlt\r\n") = .ok p := rfl
  have hcharacter : refused "top: hlt\r\n\nmov ax, 1\nhlt" 3 "mov ax, 1" .unexpectedCharacter := rfl
  have htarget : refused "hlt\njmp\nhlt" 2 "jmp" .invalidParameter := rfl
  have hlarge : refused "org 0xFFFF\ntimes 2 0x00" 2 "times 2 0x00" .tooLarge := rfl
  have hprefix : p.statements <+: q.statements := by
    obtain ⟨p', hp', hprefix⟩ :=
      (hstable _ (by decide)).accepted q (bytes "top: hlt\r\n") hwhole (by decide)
    obtain rfl : p = p' := Except.ok.inj (hpart.symm.trans hp')
    exact hprefix
  obtain ⟨hleast, hother⟩ := (hstable source (by decide)).refused_onLine hcharacter
  exact ⟨htable, by decide, hstable source (by decide), hwhole, hpart, hprefix, hcharacter, hleast,
    hother _ (by decide), htarget,
    ((hstable _ (by decide)).refused_onLine htarget).2 _ (by decide), hlarge,
    ((hstable _ (by decide)).refused_onLine hlarge).2 _ (by decide)⟩

end Assembler

end BootSector
