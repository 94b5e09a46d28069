import BootSector.Assembler
import Mathlib.Data.List.Induction
import Mathlib.Data.List.TakeWhile

/-!
# The first sweep, line by line

A line without a fault does one of three things to the state of the sweep, once it has been reported
and its label defined: nothing, start a segment, or place a statement.  `Advances` says so, with all
that holds when it happens; `advances_of_step` reads it off the definition, once and for all.

`Assembler.after lines` is the state after some lines, if none of them has a fault.  A program is
what it holds after all lines of a source (`parse_eq_ok_iff`), and a property that the first state
has and that every line keeps holds after any lines (`after_induction`).
-/

namespace BootSector

/-! ### What a line says -/

namespace Token

/-- The name that the tokens of a line define, if they start with a label definition. -/
def definedLabel? : List Token → Option Bytes
  | [] => none
  | t :: _ => if t.kind = .label then some t.text else none

/-- The tokens of a line behind its label definition. -/
def behindLabel : List Token → List Token
  | [] => []
  | t :: rest => if t.kind = .label then rest else t :: rest

/-- Tokens that do not start with a label definition. -/
theorem unlabelled_of_kind {first : Token} (h : first.kind ≠ .label) (rest : List Token) :
    definedLabel? (first :: rest) = none ∧ behindLabel (first :: rest) = first :: rest :=
  ⟨if_neg h, if_neg h⟩

end Token

namespace Sweep

/-- The instruction that a line holds behind its label, when it is read at the given location. -/
def instructionOn? (loc : Location) (line : Bytes) : Option Instruction :=
  match Token.ofLine loc line with
  | .ok tokens => (Instruction.ofTokens (Token.behindLabel tokens)).toOption
  | .error _ => none

/-! ### What a line does -/

variable {verbose : Bool} {s s' : Sweep} {number : Nat} {line : Bytes} {tokens : List Token}

/-- The state once a line has been reported. -/
def noted (verbose : Bool) (s : Sweep) (number : Nat) (line : Bytes) : Sweep :=
  if verbose then s.report (.sourceLine number s.location.current line) else s

/-- The state once a line has been reported and its label defined. -/
def entered (verbose : Bool) (s : Sweep) (number : Nat) (line : Bytes) (tokens : List Token) :
    Sweep :=
  match Token.definedLabel? tokens with
  | some name => (s.noted verbose number line).define number name
  | none => s.noted verbose number line

@[simp] theorem noted_location : (noted verbose s number line).location = s.location := by
  unfold noted
  split <;> rfl

@[simp] theorem noted_reach : (noted verbose s number line).reach = s.reach := by
  unfold noted
  split <;> rfl

@[simp] theorem noted_statements : (noted verbose s number line).statements = s.statements := by
  unfold noted
  split <;> rfl

@[simp] theorem noted_labels : (noted verbose s number line).labels = s.labels := by
  unfold noted
  split <;> rfl

@[simp] theorem define_location (name : Bytes) : (s.define number name).location = s.location := by
  unfold define
  split <;> rfl

@[simp] theorem define_reach (name : Bytes) : (s.define number name).reach = s.reach := by
  unfold define
  split <;> rfl

@[simp] theorem define_statements (name : Bytes) :
    (s.define number name).statements = s.statements := by
  unfold define
  split <;> rfl

@[simp] theorem define_labels (name : Bytes) :
    (s.define number name).labels = s.labels.bind name s.location.current := by
  unfold define
  split <;> rfl

@[simp] theorem entered_location :
    (entered verbose s number line tokens).location = s.location := by
  unfold entered
  split <;> simp

@[simp] theorem entered_reach : (entered verbose s number line tokens).reach = s.reach := by
  unfold entered
  split <;> simp

@[simp] theorem entered_statements :
    (entered verbose s number line tokens).statements = s.statements := by
  unfold entered
  split <;> simp

/-- The table of names once the label of a line has been defined. -/
theorem entered_labels :
    (entered verbose s number line tokens).labels =
      match Token.definedLabel? tokens with
      | some name => s.labels.bind name s.location.current
      | none => s.labels := by
  unfold entered
  split <;> simp

/-- **What a line without a fault does** to the state of the sweep. -/
inductive Advances (verbose : Bool) (s : Sweep) (number : Nat) (line : Bytes) : Sweep → Prop where
  /-- The line holds nothing behind its label. -/
  | bare {tokens : List Token} (htokens : Token.ofLine s.location line = .ok tokens)
    (hlabel : (Token.definedLabel? tokens).isSome → s.reach < addressSpace)
    (hrest : Token.behindLabel tokens = []) :
    Advances verbose s number line (s.entered verbose number line tokens)
  /-- The line starts a segment. -/
  | org {tokens : List Token} {addr : UInt16} (htokens : Token.ofLine s.location line = .ok tokens)
    (hlabel : (Token.definedLabel? tokens).isSome → s.reach < addressSpace)
    (hi : Instruction.ofTokens (Token.behindLabel tokens) = .ok (.origin addr)) :
    Advances verbose s number line
      { s.entered verbose number line tokens with location := ⟨addr, addr⟩, reach := addr.toNat }
  /-- The line places a statement, which still fits. -/
  | place {tokens : List Token} {i : Instruction}
    (htokens : Token.ofLine s.location line = .ok tokens)
    (hlabel : (Token.definedLabel? tokens).isSome → s.reach < addressSpace)
    (hi : Instruction.ofTokens (Token.behindLabel tokens) = .ok i) (horg : i.isOrigin = false)
    (hfits : s.reach + i.length.toNat ≤ addressSpace) :
    Advances verbose s number line
      { s.entered verbose number line tokens with
        location := { s.location with current := s.location.current + i.length }
        reach := s.reach + i.length.toNat
        statements := s.statements.push ⟨number, line, s.location.current, i⟩ }

/-- Any instruction but the start of a segment is placed if it fits. -/
theorem place_of_isOrigin {i : Instruction} (h : i.isOrigin = false) :
    s.place number line i =
      if addressSpace < s.reach + i.length.toNat then (s, some .tooLarge)
      else
        ({ s with
            location := { s.location with current := s.location.current + i.length }
            reach := s.reach + i.length.toNat
            statements := s.statements.push ⟨number, line, s.location.current, i⟩ }, none) := by
  cases i with
  | origin addr => cases h
  | _ => rfl

/-- What the tokens behind a label do. -/
theorem advances_of_statement (htokens : Token.ofLine s.location line = .ok tokens)
    (hlabel : (Token.definedLabel? tokens).isSome → s.reach < addressSpace)
    (h : (s.entered verbose number line tokens).statement number line (Token.behindLabel tokens) =
      (s', none)) : Advances verbose s number line s' := by
  unfold statement at h
  split at h
  · rename_i hempty
    obtain rfl := (Prod.mk.inj h).1
    exact .bare htokens hlabel (List.isEmpty_iff.mp hempty)
  · split at h
    · cases h
    · rename_i i hi
      cases horg : i.isOrigin with
      | true =>
        cases i with
        | origin addr =>
          obtain rfl := (Prod.mk.inj h).1
          exact .org htokens hlabel hi
        | _ => cases horg
      | false =>
        rw [place_of_isOrigin horg] at h
        simp only [entered_location, entered_reach, entered_statements] at h
        split at h
        · cases h
        · rename_i hfits
          obtain rfl := (Prod.mk.inj h).1
          exact .place htokens hlabel hi horg (Nat.not_lt.mp hfits)

/-- A line is reported, and then its tokens act. -/
theorem step_eq : s.step verbose number line =
    match Token.ofLine s.location line with
    | .error fault => (s.noted verbose number line, some fault)
    | .ok tokens => (s.noted verbose number line).tokens number line tokens := by
  have hnoted : (if verbose then s.report (.sourceLine number s.location.current line) else s) =
      s.noted verbose number line := rfl
  cases htokens : Token.ofLine s.location line with
  | error fault => simp only [step, hnoted, noted_location, htokens]
  | ok tokens => simp only [step, hnoted, noted_location, htokens]

/-- **A step without a fault is one of the three.** -/
theorem advances_of_step (h : s.step verbose number line = (s', none)) :
    Advances verbose s number line s' := by
  rw [step_eq] at h
  split at h
  · cases h
  · rename_i tokens htokens
    cases tokens with
    | nil =>
      obtain rfl := (Prod.mk.inj h).1
      exact .bare htokens (fun hsome => by cases hsome) rfl
    | cons t rest =>
      by_cases ht : t.kind = .label
      · rw [Sweep.tokens, if_pos ht, noted_reach] at h
        split at h
        · cases h
        · rename_i hfull
          refine advances_of_statement htokens (fun _ => Nat.not_le.mp hfull) ?_
          simpa only [entered, Token.definedLabel?, Token.behindLabel, if_pos ht] using h
      · rw [Sweep.tokens, if_neg ht] at h
        refine advances_of_statement htokens (fun hsome => ?_) ?_
        · rw [Token.definedLabel?, if_neg ht] at hsome
          cases hsome
        · simpa only [entered, Token.definedLabel?, Token.behindLabel, if_neg ht] using h

/-- Below the end of the address space, the tokens of a line act behind its label. -/
theorem tokens_eq_statement
    (hlabel : (Token.definedLabel? tokens).isSome → s.reach < addressSpace) :
    (s.noted verbose number line).tokens number line tokens =
      (s.entered verbose number line tokens).statement number line (Token.behindLabel tokens) := by
  cases tokens with
  | nil => rfl
  | cons t rest =>
    by_cases ht : t.kind = .label
    · have hbelow : ¬ addressSpace ≤ s.reach := by
        rw [Token.definedLabel?, if_pos ht] at hlabel
        exact Nat.not_le.mpr (hlabel rfl)
      rw [Sweep.tokens, if_pos ht, noted_reach, if_neg hbelow]
      simp only [entered, Token.definedLabel?, Token.behindLabel, if_pos ht]
    · rw [Sweep.tokens, if_neg ht]
      simp only [entered, Token.definedLabel?, Token.behindLabel, if_neg ht]

/-- **Each of the three is a step without a fault.** -/
theorem step_of_advances (h : Advances verbose s number line s') :
    s.step verbose number line = (s', none) := by
  -- the tokens behind the label are not empty when an instruction is read from them
  have hne {rest : List Token} {i : Instruction} (hi : Instruction.ofTokens rest = .ok i) :
      rest.isEmpty ≠ true := by
    rintro hempty
    rw [List.isEmpty_iff.mp hempty] at hi
    cases hi
  rw [step_eq]
  cases h with
  | bare htokens hlabel hrest =>
    simp only [htokens, tokens_eq_statement hlabel, hrest]
    rfl
  | org htokens hlabel hi =>
    simp only [htokens, tokens_eq_statement hlabel, statement, if_neg (hne hi), hi]
    rfl
  | place htokens hlabel hi horg hfits =>
    simp only [htokens, tokens_eq_statement hlabel, statement, if_neg (hne hi), hi,
      place_of_isOrigin horg, entered_location, entered_reach, entered_statements,
      if_neg (Nat.not_lt.mpr hfits)]

/-- What every line does, whatever stands behind its label: its tokens are read, a label in them is
defined below the end of the address space, and nothing else changes the table or the events. -/
theorem Advances.exists_tokens (h : Advances verbose s number line s') :
    ∃ tokens, Token.ofLine s.location line = .ok tokens ∧
      ((Token.definedLabel? tokens).isSome → s.reach < addressSpace) ∧
      s'.labels = (s.entered verbose number line tokens).labels ∧
      s'.events = (s.entered verbose number line tokens).events := by
  cases h with
  | bare htokens hlabel | org htokens hlabel | place htokens hlabel =>
    exact ⟨_, htokens, hlabel, rfl, rfl⟩

/-- The instruction of a line that places a statement or starts a segment. -/
theorem instructionOn?_eq {loc : Location} {i : Instruction}
    (htokens : Token.ofLine loc line = .ok tokens)
    (hi : Instruction.ofTokens (Token.behindLabel tokens) = .ok i) :
    instructionOn? loc line = some i := by
  rw [instructionOn?, htokens]
  simp only [hi]
  rfl

/-! ### Runs -/

/-- The state after some lines, if none of them has a fault. -/
def run? (verbose : Bool) (s : Sweep) (number : Nat) (lines : List Bytes) : Option Sweep :=
  match s.run verbose number lines with
  | (s', none) => some s'
  | (_, some _) => none

theorem run?_cons (rest : List Bytes) :
    run? verbose s number (line :: rest) =
      match s.step verbose number line with
      | (s', none) => run? verbose s' (number + 1) rest
      | (_, some _) => none := by
  rw [run?, run]
  obtain ⟨s₁, fault?⟩ := s.step verbose number line
  cases fault? <;> rfl

/-- A run over some lines goes on from the state after the first of them. -/
theorem run?_append (lines rest : List Bytes) :
    run? verbose s number (lines ++ rest) =
      (run? verbose s number lines).bind fun s' =>
        run? verbose s' (number + lines.length) rest := by
  induction lines generalizing s number with
  | nil => rfl
  | cons line lines ih =>
    rw [List.cons_append, run?_cons, run?_cons]
    split
    · rw [ih, List.length_cons, Nat.add_assoc, Nat.add_comm 1]
    · rfl

/-- A run gets through some lines if it gets through the first and from there through the rest. -/
theorem run?_cons_eq_some_iff {rest : List Bytes} :
    run? verbose s number (line :: rest) = some s' ↔
      ∃ s₁, Advances verbose s number line s₁ ∧ run? verbose s₁ (number + 1) rest = some s' := by
  rw [run?_cons]
  constructor
  · intro h
    split at h
    · rename_i s₁ hstep
      exact ⟨s₁, advances_of_step hstep, h⟩
    · cases h
  · rintro ⟨s₁, hadv, hrest⟩
    simp only [step_of_advances hadv, hrest]

theorem advances_of_run?_singleton (h : run? verbose s number [line] = some s') :
    Advances verbose s number line s' := by
  obtain ⟨s₁, hadv, hrest⟩ := run?_cons_eq_some_iff.mp h
  obtain rfl : s₁ = s' := Option.some.inj hrest
  exact hadv

end Sweep

/-! ### Sources -/

namespace Reading

variable {text : Bytes}

theorem fault_ofBytes_eq_none_iff :
    (ofBytes text).fault = none ↔ ∀ line ∈ splitLines text, fits line = true := by
  rw [← List.all_eq_true]
  simp only [ofBytes]
  split <;> simp_all

/-- If all lines are short enough, then they are all read. -/
theorem lines_ofBytes (h : ∀ line ∈ splitLines text, fits line = true) :
    (ofBytes text).lines = (splitLines text).map dropReturn := by
  have htake : (splitLines text).takeWhile fits = splitLines text :=
    List.takeWhile_eq_self_iff.mpr h
  simp only [ofBytes, htake]

end Reading

namespace Assembler

variable {a : Assembler} {lines : List Bytes} {line : Bytes} {s s' : Sweep}

/-- **The state of the first sweep after some lines**, if it gets that far. -/
def after (a : Assembler) (lines : List Bytes) : Option Sweep :=
  match Predefine.table a.evaluate a.origin a.predefines with
  | .ok labels => (Sweep.start a.origin labels).run? a.verbose 1 lines
  | .error _ => none

/-- A program is what the first sweep holds after all lines of a source. -/
theorem parse_eq_ok_iff {source : Bytes} {p : Program} :
    a.parse source = .ok p ↔ (Reading.ofBytes source).fault = none ∧
      ∃ s, a.after (Reading.ofBytes source).lines = some s ∧
        p = ⟨s.statements.toList, s.labels, a.strict⟩ := by
  unfold parse sweep after
  cases Predefine.table a.evaluate a.origin a.predefines with
  | error e => simp
  | ok labels =>
    simp only [Sweep.run?]
    rcases hrun : (Sweep.start a.origin labels).run a.verbose 1 (Reading.ofBytes source).lines
      with ⟨s, error?⟩
    cases error? <;> cases (Reading.ofBytes source).fault <;> simp [eq_comm]

/-- A program is what the first sweep makes of the lines of a source, if all are short enough. -/
theorem parse_eq_ok_iff_lines {source : Bytes} {p : Program} : a.parse source = .ok p ↔
    (∀ line ∈ Reading.splitLines source, Reading.fits line = true) ∧
      ∃ s, a.after ((Reading.splitLines source).map Reading.dropReturn) = some s ∧
        p = ⟨s.statements.toList, s.labels, a.strict⟩ := by
  rw [parse_eq_ok_iff, Reading.fault_ofBytes_eq_none_iff]
  refine and_congr_right fun hfits => ?_
  rw [Reading.lines_ofBytes hfits]

theorem assemble_eq_ok_iff {source code : Bytes} :
    a.assemble source = .ok code ↔ ∃ p, a.parse source = .ok p ∧ p.encode = .ok code := by
  unfold assemble
  cases a.parse source <;> simp

/-- A sweep over some lines goes on from the state after the first of them. -/
theorem after_append (lines rest : List Bytes) :
    a.after (lines ++ rest) =
      (a.after lines).bind fun s => s.run? a.verbose (lines.length + 1) rest := by
  unfold after
  split
  · rw [Sweep.run?_append, Nat.add_comm 1]
  · rfl

theorem eq_start_of_after_nil (h : a.after [] = some s) :
    ∃ labels, Predefine.table a.evaluate a.origin a.predefines = .ok labels ∧
      s = .start a.origin labels := by
  unfold after at h
  split at h
  · rename_i labels hlabels
    exact ⟨labels, hlabels, (Option.some.inj h).symm⟩
  · cases h

/-- The lines before a line, and that line. -/
theorem advances_of_after (h : a.after (lines ++ [line]) = some s') :
    ∃ s, a.after lines = some s ∧ s.Advances a.verbose (lines.length + 1) line s' := by
  rw [after_append, Option.bind_eq_some_iff] at h
  obtain ⟨s, hs, hline⟩ := h
  exact ⟨s, hs, Sweep.advances_of_run?_singleton hline⟩

/-- A sweep that gets through some lines gets through the first of them. -/
theorem exists_after_take (n : Nat) (h : a.after lines = some s') :
    ∃ s, a.after (lines.take n) = some s := by
  rw [← List.take_append_drop n lines, after_append, Option.bind_eq_some_iff] at h
  obtain ⟨s, hs, -⟩ := h
  exact ⟨s, hs⟩

/-- **Invariants of the first sweep.**  What holds before the first line and is kept by every line
that advances the state holds after any lines. -/
theorem after_induction {P : List Bytes → Sweep → Prop}
    (start : ∀ labels, Predefine.table a.evaluate a.origin a.predefines = .ok labels →
      P [] (.start a.origin labels))
    (step : ∀ lines s line s', a.after lines = some s → P lines s →
      s.Advances a.verbose (lines.length + 1) line s' → P (lines ++ [line]) s')
    (h : a.after lines = some s) : P lines s := by
  induction lines using List.reverseRecOn generalizing s with
  | nil =>
    obtain ⟨labels, hlabels, rfl⟩ := eq_start_of_after_nil h
    exact start labels hlabels
  | append_singleton lines line ih =>
    obtain ⟨s₁, hs₁, hadv⟩ := advances_of_after h
    exact step lines s₁ line s hs₁ (ih hs₁) hadv

end Assembler

end BootSector
