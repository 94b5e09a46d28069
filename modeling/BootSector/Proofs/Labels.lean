import BootSector.Proofs.Layout
import Mathlib.Data.List.Basic

/-!
# The label table of a program

`Assembler.definitions lines` lists the label definitions of a source in order, each with its line
and with the location counter at which the line is read.  The table of a program and the warnings of
the first sweep are said in terms of this list and of the predefinitions:

* a name has the address of its last definition, else that of its last predefinition (`binding`);
* there is one warning for each definition of a name that already has an address, with the address
  that it had (`redefinitions`).

`tracks_of_after` carries both along the sweep, line by line.  That the address of a definition is
the one of the code behind it comes from the layout (`address_of_definition`).
-/

namespace BootSector

/-! ### Predefinitions -/

namespace Predefine

variable {evaluate : Formula.Evaluator} {env : Formula.Env} {labels table : LabelTable}
  {defs : List Predefine}

/-- The environment behind some predefinitions: each adds its name with its address. -/
def environment (evaluate : Formula.Evaluator) (env : Formula.Env) : List Predefine → Formula.Env
  | [] => env
  | d :: rest =>
    match address evaluate env d.formula with
    | .ok addr => environment evaluate ((d.name, (addr.toNat : Int)) :: env) rest
    | .error _ => env

/-- Predefinitions that can be bound have an address one by one. -/
theorem address_of_bindFrom_cons {d : Predefine}
    (h : bindFrom evaluate env labels (d :: defs) = .ok table) :
    ∃ addr, address evaluate env d.formula = .ok addr ∧
      bindFrom evaluate ((d.name, (addr.toNat : Int)) :: env) (labels.bind d.name addr) defs =
        .ok table := by
  rw [bindFrom] at h
  split at h
  · cases h
  · rename_i addr haddr
    exact ⟨addr, haddr, h⟩

/-- A name without a predefinition keeps its address. -/
theorem find?_of_bindFrom_of_ne {name : Bytes} (h : bindFrom evaluate env labels defs = .ok table)
    (hname : ∀ d ∈ defs, d.name ≠ name) : table.find? name = labels.find? name := by
  induction defs generalizing env labels with
  | nil =>
    obtain rfl := Except.ok.inj h
    rfl
  | cons d defs ih =>
    obtain ⟨addr, -, hrest⟩ := address_of_bindFrom_cons h
    have hd : d.name ≠ name := hname d List.mem_cons_self
    rw [ih hrest fun e he => hname e (List.mem_cons_of_mem d he), LabelTable.find?_bind,
      if_neg (Ne.symm hd)]

/-- The last predefinition of a name decides, in the environment of those before it. -/
theorem find?_of_bindFrom_of_last {before later : List Predefine} {d : Predefine}
    (h : bindFrom evaluate env labels (before ++ d :: later) = .ok table)
    (hlast : ∀ e ∈ later, e.name ≠ d.name) :
    ∃ addr, address evaluate (environment evaluate env before) d.formula = .ok addr ∧
      table.find? d.name = some addr := by
  induction before generalizing env labels with
  | nil =>
    obtain ⟨addr, haddr, hrest⟩ := address_of_bindFrom_cons h
    refine ⟨addr, haddr, ?_⟩
    rw [find?_of_bindFrom_of_ne hrest hlast, LabelTable.find?_bind, if_pos rfl]
  | cons e before ih =>
    obtain ⟨addr, haddr, hrest⟩ := address_of_bindFrom_cons h
    obtain ⟨addr', haddr', hfind⟩ := ih hrest
    refine ⟨addr', ?_, hfind⟩
    rw [environment, haddr]
    exact haddr'

/-- The names that are bound before the first line are those that are predefined. -/
theorem isSome_find?_table_iff {origin : UInt16}
    (h : Predefine.table evaluate origin defs = .ok table) (name : Bytes) :
    (table.find? name).isSome ↔ ∃ d ∈ defs, d.name = name := by
  constructor
  · intro hsome
    by_contra hnone
    have hname : ∀ d ∈ defs, d.name ≠ name := fun d hd hn => hnone ⟨d, hd, hn⟩
    rw [find?_of_bindFrom_of_ne h hname] at hsome
    cases hsome
  · rintro ⟨d, hd, rfl⟩
    -- among the predefinitions of the name there is a last one
    obtain ⟨later, e, before, hsplit, he, hlater⟩ :
        ∃ later e before, defs.reverse = later ++ e :: before ∧ e.name = d.name ∧
          ∀ f ∈ later, f.name ≠ d.name := by
      have hfind : (defs.reverse.find? fun f => decide (f.name = d.name)).isSome := by
        rw [List.find?_isSome]
        exact ⟨d, List.mem_reverse.mpr hd, decide_eq_true rfl⟩
      obtain ⟨e, he⟩ := Option.isSome_iff_exists.mp hfind
      obtain ⟨hname, later, before, hsplit, hlater⟩ := List.find?_eq_some_iff_append.mp he
      refine ⟨later, e, before, hsplit, of_decide_eq_true hname, fun f hf => ?_⟩
      simpa using hlater f hf
    have hdefs : defs = before.reverse ++ e :: later.reverse := by
      rw [← List.reverse_reverse defs, hsplit]
      simp
    have hlast : ∀ f ∈ later.reverse, f.name ≠ e.name := by
      intro f hf
      rw [he]
      exact hlater f (List.mem_reverse.mp hf)
    rw [hdefs] at h
    obtain ⟨addr, -, hfind⟩ := find?_of_bindFrom_of_last h hlast
    rw [← he, hfind]
    rfl

end Predefine

/-! ### Definitions -/

/-- **A label definition** of a source. -/
structure LabelDefinition where
  /-- The number of its line. -/
  line : Nat
  /-- The name. -/
  name : Bytes
  /-- The location counter at which the line is read. -/
  address : UInt16
  deriving DecidableEq, Repr

namespace LabelDefinition

variable {predefined : LabelTable} {ds : List LabelDefinition}

/-- The warning that a definition replaces an earlier address of its name. -/
def warning (d : LabelDefinition) (old : UInt16) : Event :=
  .labelRedefined d.name d.line old d.address

/-- **The address of a name behind some definitions**: the one of the last definition of the name,
else the predefined one. -/
def binding (predefined : LabelTable) (ds : List LabelDefinition) (name : Bytes) : Option UInt16 :=
  match ds.reverse.find? fun d => d.name = name with
  | some d => some d.address
  | none => predefined.find? name

/-- **The warnings that some definitions give rise to**: one for each definition of a name that has
an address behind the definitions before it. -/
def redefinitions (predefined : LabelTable) (ds : List LabelDefinition) : List Event :=
  (List.range ds.length).filterMap fun j =>
    ds[j]?.bind fun d => (binding predefined (ds.take j) d.name).map d.warning

theorem binding_concat (d : LabelDefinition) (name : Bytes) :
    binding predefined (ds ++ [d]) name =
      if name = d.name then some d.address else binding predefined ds name := by
  unfold binding
  rw [List.reverse_append, List.reverse_singleton, List.singleton_append, List.find?_cons]
  by_cases h : name = d.name
  · rw [if_pos h, decide_eq_true h.symm]
  · rw [if_neg h, decide_eq_false (Ne.symm h)]

theorem redefinitions_concat (d : LabelDefinition) :
    redefinitions predefined (ds ++ [d]) =
      redefinitions predefined ds ++ ((binding predefined ds d.name).map d.warning).toList := by
  unfold redefinitions
  rw [List.length_append, List.length_singleton, List.range_succ, List.filterMap_append]
  congr 1
  · -- the earlier definitions see the same definitions before them
    refine List.filterMap_congr fun j hj => ?_
    have hlt : j < ds.length := List.mem_range.mp hj
    rw [List.getElem?_append_left hlt, List.take_append_of_le_length (Nat.le_of_lt hlt)]
  · have hlast : ((ds ++ [d])[ds.length]?.bind fun d' =>
        (binding predefined ((ds ++ [d]).take ds.length) d'.name).map d'.warning) =
        (binding predefined ds d.name).map d.warning := by
      rw [List.getElem?_concat_length, List.take_left, Option.bind_some]
    rw [List.filterMap_cons, hlast]
    cases binding predefined ds d.name <;> rfl

theorem binding_of_last {before later : List LabelDefinition} {d : LabelDefinition}
    (hlast : ∀ e ∈ later, e.name ≠ d.name) :
    binding predefined (before ++ d :: later) d.name = some d.address := by
  have hlater : (later.reverse.find? fun e => decide (e.name = d.name)) = none := by
    rw [List.find?_eq_none]
    intro e he
    simpa using hlast e (List.mem_reverse.mp he)
  unfold binding
  rw [List.reverse_append, List.reverse_cons, List.append_assoc, List.find?_append, hlater,
    Option.none_or, List.singleton_append, List.find?_cons, decide_eq_true rfl]

theorem binding_of_ne {name : Bytes} (h : ∀ d ∈ ds, d.name ≠ name) :
    binding predefined ds name = predefined.find? name := by
  have hnone : (ds.reverse.find? fun d => decide (d.name = name)) = none := by
    rw [List.find?_eq_none]
    intro d hd
    simpa using h d (List.mem_reverse.mp hd)
  unfold binding
  rw [hnone]

theorem isSome_binding_iff (name : Bytes) :
    (binding predefined ds name).isSome ↔
      (predefined.find? name).isSome ∨ ∃ d ∈ ds, d.name = name := by
  by_cases h : ∃ d ∈ ds, d.name = name
  · refine ⟨fun _ => .inr h, fun _ => ?_⟩
    obtain ⟨d, hd, hname⟩ := h
    have hfind : (ds.reverse.find? fun d => decide (d.name = name)).isSome := by
      rw [List.find?_isSome]
      exact ⟨d, List.mem_reverse.mpr hd, decide_eq_true hname⟩
    obtain ⟨e, he⟩ := Option.isSome_iff_exists.mp hfind
    unfold binding
    rw [he]
    rfl
  · rw [binding_of_ne fun d hd hname => h ⟨d, hd, hname⟩]
    exact ⟨.inl, fun hor => hor.resolve_right h⟩

end LabelDefinition

/-! ### The first sweep -/

namespace Sweep

variable {verbose : Bool} {s s' : Sweep} {number : Nat} {line : Bytes}
  {predefined : LabelTable} {ds : List LabelDefinition}

/-- The name that a line defines, when it is read at the given location. -/
def labelOn? (loc : Location) (line : Bytes) : Option Bytes :=
  match Token.ofLine loc line with
  | .ok tokens => Token.definedLabel? tokens
  | .error _ => none

theorem labelOn?_eq {loc : Location} {tokens : List Token}
    (htokens : Token.ofLine loc line = .ok tokens) :
    labelOn? loc line = Token.definedLabel? tokens := by
  rw [labelOn?, htokens]

/-- **The state tracks some definitions**: its table gives the addresses, and its warnings are those
that the definitions give rise to. -/
structure Tracks (predefined : LabelTable) (ds : List LabelDefinition) (s : Sweep) : Prop where
  /-- A name has the address of its last definition. -/
  labels (name : Bytes) : s.labels.find? name = LabelDefinition.binding predefined ds name
  /-- The warnings are those of the definitions. -/
  warnings : s.events.toList.filter (fun e => e.severity = .warning) =
    LabelDefinition.redefinitions predefined ds

/-- The report of a line is no warning. -/
theorem Tracks.noted (h : s.Tracks predefined ds) :
    (s.noted verbose number line).Tracks predefined ds := by
  unfold Sweep.noted
  split
  · refine ⟨h.labels, ?_⟩
    have hdebug : (Event.sourceLine number s.location.current line).severity ≠ .warning := nofun
    rw [report, Array.toList_push, List.filter_append, h.warnings,
      List.filter_cons_of_neg (by simpa using hdebug), List.filter_nil, List.append_nil]
  · exact h

/-- A label definition is one more definition to track. -/
theorem Tracks.define (h : s.Tracks predefined ds) (number : Nat) (name : Bytes) :
    (s.define number name).Tracks predefined (ds ++ [⟨number, name, s.location.current⟩]) := by
  constructor
  case labels =>
    intro m
    have htable : (s.define number name).labels = s.labels.bind name s.location.current := by
      unfold Sweep.define
      split <;> rfl
    rw [htable, LabelTable.find?_bind, h.labels, LabelDefinition.binding_concat]
  case warnings =>
    rw [LabelDefinition.redefinitions_concat, ← h.warnings, ← h.labels]
    unfold Sweep.define
    cases s.labels.find? name with
    | some old =>
      have hwarning :
          (Event.labelRedefined name number old s.location.current).severity = .warning := rfl
      simp only [report, Array.toList_push, List.filter_append]
      rw [List.filter_cons_of_pos (by simpa using hwarning)]
      rfl
    | none => exact (List.append_nil _).symm

/-- A line adds the definition that stands on it. -/
theorem Tracks.advances (h : s.Tracks predefined ds) (hadv : Advances verbose s number line s') :
    s'.Tracks predefined (ds ++ ((labelOn? s.location line).map fun name =>
      ⟨number, name, s.location.current⟩).toList) := by
  obtain ⟨tokens, htokens, -, hlabels, hevents⟩ := hadv.exists_tokens
  have hentered : (s.entered verbose number line tokens).Tracks predefined
      (ds ++ ((labelOn? s.location line).map fun name =>
        ⟨number, name, s.location.current⟩).toList) := by
    rw [labelOn?_eq htokens, entered]
    cases Token.definedLabel? tokens with
    | some name =>
      have hnoted : (s.noted verbose number line).Tracks predefined ds := h.noted
      have hdefine := hnoted.define number name
      rw [noted_location] at hdefine
      exact hdefine
    | none =>
      rw [Option.map_none, Option.toList_none, List.append_nil]
      exact h.noted
  exact ⟨fun name => hlabels ▸ hentered.labels name, hevents ▸ hentered.warnings⟩

end Sweep

namespace Assembler

variable {a : Assembler} {lines : List Bytes} {line : Bytes} {s s' : Sweep}
  {predefined : LabelTable}

/-- The label definition on the line behind the first `n`. -/
def definitionOn? (a : Assembler) (lines : List Bytes) (n : Nat) : Option LabelDefinition :=
  match a.after (lines.take n), lines[n]? with
  | some s, some line =>
    (Sweep.labelOn? s.location line).map fun name => ⟨n + 1, name, s.location.current⟩
  | _, _ => none

/-- **The label definitions of a source**, in order. -/
def definitions (a : Assembler) (lines : List Bytes) : List LabelDefinition :=
  (List.range lines.length).filterMap (a.definitionOn? lines)

/-- Another line adds the definition that stands on it. -/
theorem definitions_concat (hs : a.after lines = some s) :
    a.definitions (lines ++ [line]) = a.definitions lines ++
      ((Sweep.labelOn? s.location line).map fun name =>
        ⟨lines.length + 1, name, s.location.current⟩).toList := by
  unfold definitions
  rw [List.length_append, List.length_singleton, List.range_succ, List.filterMap_append]
  congr 1
  · refine List.filterMap_congr fun n hn => ?_
    have hlt : n < lines.length := List.mem_range.mp hn
    rw [definitionOn?, definitionOn?, List.take_append_of_le_length (Nat.le_of_lt hlt),
      List.getElem?_append_left hlt]
  · have hlast : a.definitionOn? (lines ++ [line]) lines.length =
        (Sweep.labelOn? s.location line).map fun name =>
          ⟨lines.length + 1, name, s.location.current⟩ := by
      rw [definitionOn?, List.take_left, hs, List.getElem?_concat_length]
    rw [List.filterMap_cons, hlast]
    cases Sweep.labelOn? s.location line <;> rfl

/-- **The sweep tracks the definitions of the lines it has read.** -/
theorem tracks_of_after (htable : Predefine.table a.evaluate a.origin a.predefines = .ok predefined)
    (h : a.after lines = some s) : s.Tracks predefined (a.definitions lines) := by
  refine after_induction (P := fun lines s => s.Tracks predefined (a.definitions lines))
    (fun labels hlabels => ?_) ?_ h
  · obtain rfl : labels = predefined := Except.ok.inj (hlabels.symm.trans htable)
    exact ⟨fun name => rfl, rfl⟩
  · intro lines s line s' hs htracks hadv
    rw [definitions_concat hs]
    exact htracks.advances hadv

/-! ### Addresses of definitions -/

/-- A definition stands on a line that the sweep reaches. -/
theorem exists_of_mem_definitions {d : LabelDefinition} (h : d ∈ a.definitions lines) :
    ∃ n s line, d.line = n + 1 ∧ lines[n]? = some line ∧ a.after (lines.take n) = some s ∧
      Sweep.labelOn? s.location line = some d.name ∧ d.address = s.location.current := by
  obtain ⟨n, -, hn⟩ := List.mem_filterMap.mp h
  rw [definitionOn?] at hn
  split at hn
  · rename_i s line hs hline
    obtain ⟨name, hname, rfl⟩ := Option.map_eq_some_iff.mp hn
    exact ⟨n, s, line, rfl, hline, hs, hname, rfl⟩
  · cases hn

/-- The address of a definition is the true end of the code before it. -/
theorem reach_of_labelOn? {n : Nat} {name : Bytes} (h : a.after lines = some s')
    (hline : lines[n]? = some line) (hs : a.after (lines.take n) = some s)
    (hlabel : Sweep.labelOn? s.location line = some name) :
    s.location.current.toNat = s.reach := by
  obtain ⟨s₁, hs₁⟩ := exists_after_take (n + 1) h
  obtain ⟨s₀, hs₀, hadv⟩ := advances_of_after_take hs₁ hline
  obtain rfl : s₀ = s := Option.some.inj (hs₀.symm.trans hs)
  -- a line with a label is refused once the counter has wrapped around
  obtain ⟨tokens, htokens, hbelow, -⟩ := hadv.exists_tokens
  have hlt : s₀.reach < 65536 := by
    apply hbelow
    rw [← Sweep.labelOn?_eq htokens, hlabel]
    rfl
  rw [(reach_of_after hs).2]
  exact Nat.mod_eq_of_lt hlt

/-- **A label is the address of the code behind it**, if no segment starts in between. -/
theorem address_of_definition (h : a.after lines = some s') {d : LabelDefinition} {i : Nat}
    {st : Statement} (hd : d ∈ a.definitions lines) (hst : s'.statements.toList[i]? = some st)
    (hne : st.length ≠ 0) (hline : d.line ≤ st.lineNo)
    (hempty : ∀ j before, j < i → s'.statements.toList[j]? = some before →
      d.line ≤ before.lineNo → before.length = 0)
    (hunbroken : ∀ k, d.line ≤ k → k < st.lineNo → a.segment? lines k = none) :
    st.address = d.address := by
  obtain ⟨n, s, line, hn, hlines, hs, hlabel, haddress⟩ := exists_of_mem_definitions hd
  have hreach : st.address.toNat = s.reach := by
    refine address_eq_reach_of_empty h hst hne hs (by omega) ?_ ?_
    · intro k hnk hk
      exact hunbroken k (by omega) hk
    · intro j before hj hbefore hlater
      exact hempty j before hj hbefore (by omega)
  rw [haddress]
  exact UInt16.toNat_inj.mp (hreach.trans (reach_of_labelOn? h hlines hs hlabel).symm)

end Assembler

/-! ### The table -/

/-- **The label table of a program**, when `p` is the program that assembler `a` makes of `lines`,
with the given table before the first line and the given events. -/
structure Program.Labelled (a : Assembler) (lines : List Bytes) (predefined : LabelTable)
    (events : List Event) (p : Program) : Prop where
  /-- A name is bound if it is predefined or defined. -/
  bound (name : Bytes) : (p.labels.find? name).isSome ↔
    (∃ d ∈ a.predefines, d.name = name) ∨ ∃ d ∈ a.definitions lines, d.name = name
  /-- A name has the address of its last definition. -/
  last (before later : List LabelDefinition) (d : LabelDefinition) :
    a.definitions lines = before ++ d :: later → (∀ e ∈ later, e.name ≠ d.name) →
    p.labels.find? d.name = some d.address
  /-- A name that is not defined has the address that its last formula gives. -/
  formula (before later : List Predefine) (d : Predefine) :
    a.predefines = before ++ d :: later → (∀ e ∈ later, e.name ≠ d.name) →
    (∀ e ∈ a.definitions lines, e.name ≠ d.name) →
    ∃ addr, Predefine.address a.evaluate (Predefine.environment a.evaluate
        (Predefine.baseEnv a.origin) before) d.formula = .ok addr ∧
      p.labels.find? d.name = some addr
  /-- The address of a definition is the one of the first statement on its line or behind it that
  is not empty, if no segment starts in between. -/
  next (d : LabelDefinition) (i : Nat) (st : Statement) : d ∈ a.definitions lines →
    p.statements[i]? = some st → st.length ≠ 0 → d.line ≤ st.lineNo →
    (∀ (j : Nat) (before : Statement), j < i → p.statements[j]? = some before →
      d.line ≤ before.lineNo → before.length = 0) →
    (∀ k, d.line ≤ k → k < st.lineNo → a.segment? lines k = none) → st.address = d.address
  /-- There is one warning for each definition of a name that is bound already. -/
  warnings : events.filter (fun e => e.severity = .warning) =
    LabelDefinition.redefinitions predefined (a.definitions lines)

/-- The events of a sweep that gets through its source. -/
theorem Assembler.events_of_after {a : Assembler} {r : Reading} {s : Sweep}
    (h : a.after r.lines = some s) : (a.sweep r).events = s.events.toList := by
  unfold after at h
  unfold sweep
  split at h
  · rename_i labels hlabels
    rw [hlabels]
    unfold Sweep.run? at h
    split at h
    · rename_i s' hrun
      obtain rfl := Option.some.inj h
      simp only [hrun]
    · cases h
  · cases h

/-- **The label table of a program is the right one.** -/
theorem Assembler.labelled_of_parse (a : Assembler) (source : Bytes) (p : Program)
    (hparse : a.parse source = .ok p) :
    ∃ predefined, Predefine.table a.evaluate a.origin a.predefines = .ok predefined ∧
      p.Labelled a (Reading.ofBytes source).lines predefined
        (a.sweep (.ofBytes source)).events := by
  obtain ⟨-, s, hs, rfl⟩ := parse_eq_ok_iff.mp hparse
  obtain ⟨s₀, hs₀⟩ := exists_after_take 0 hs
  obtain ⟨predefined, htable, -⟩ := eq_start_of_after_nil hs₀
  have htracks := tracks_of_after htable hs
  refine ⟨predefined, htable, ?_⟩
  constructor
  case bound =>
    intro name
    rw [htracks.labels, LabelDefinition.isSome_binding_iff, Predefine.isSome_find?_table_iff htable]
  case last =>
    intro before later d hsplit hlast
    rw [htracks.labels, hsplit, LabelDefinition.binding_of_last hlast]
  case formula =>
    intro before later d hsplit hlast hundefined
    rw [hsplit] at htable
    obtain ⟨addr, haddr, hfind⟩ := Predefine.find?_of_bindFrom_of_last htable hlast
    refine ⟨addr, haddr, ?_⟩
    rw [htracks.labels, LabelDefinition.binding_of_ne hundefined, hfind]
  case next =>
    intro d i st hd hst hne hline hempty hunbroken
    exact address_of_definition hs hd hst hne hline hempty hunbroken
  case warnings =>
    rw [events_of_after hs]
    exact htracks.warnings

/-- A predefined name that a line defines again, one that no line defines, and a label that is
defined twice, the first time in front of an empty statement. -/
theorem Assembler.labelled_twice :
    ∃ (a : Assembler) (source : Bytes) (p : Program) (cli : Statement),
      a.parse source = .ok p ∧ p.statements[2]? = some cli ∧
      p.labels.find? (Bytes.ofString "TOP") = some 0 ∧
      p.labels.find? (Bytes.ofString "BASE") = some 0x10 ∧
      p.labels.find? (Bytes.ofString "loop") = some 2 ∧
      cli.address = 1 ∧
      (a.sweep (.ofBytes source)).events.filter (fun e => e.severity = .warning) =
        [.labelRedefined (Bytes.ofString "TOP") 1 0x10 0,
         .labelRedefined (Bytes.ofString "loop") 5 1 2] := by
  let top : Bytes := Bytes.ofString "TOP"
  let base : Bytes := Bytes.ofString "BASE"
  let loop : Bytes := Bytes.ofString "loop"
  let a : Assembler :=
    { verbose := true
      predefines := [⟨top, Bytes.ofString "0x10"⟩, ⟨base, Bytes.ofString "TOP"⟩] }
  let source := Bytes.ofString "TOP: hlt\nloop:\ntimes 0 0x41\ncli\nloop: jmp loop\n"
  let lines := (Reading.ofBytes source).lines
  let hlt : Statement := ⟨1, Bytes.ofString "TOP: hlt", 0, .simple 0xF4⟩
  let nothing : Statement := ⟨3, Bytes.ofString "times 0 0x41", 1, .times 0 (.byte 0x41)⟩
  let cli : Statement := ⟨4, Bytes.ofString "cli", 1, .simple 0xFA⟩
  let jump : Statement := ⟨5, Bytes.ofString "loop: jmp loop", 2, .jump 0xEB 2 (.label loop)⟩
  let predefined : LabelTable := (LabelTable.empty.bind top 0x10).bind base 0x10
  let p : Program :=
    ⟨[hlt, nothing, cli, jump], ((predefined.bind top 0).bind loop 1).bind loop 2, false⟩
  have hparse : a.parse source = .ok p := rfl
  have hdefinitions : a.definitions lines = [⟨1, top, 0⟩, ⟨2, loop, 1⟩, ⟨5, loop, 2⟩] := rfl
  obtain ⟨table, htable, hlabelled⟩ := labelled_of_parse a source p hparse
  obtain rfl : predefined = table := Except.ok.inj htable
  refine ⟨a, source, p, cli, hparse, rfl, ?_, ?_, ?_, ?_, ?_⟩
  · exact hlabelled.last [] [⟨2, loop, 1⟩, ⟨5, loop, 2⟩] ⟨1, top, 0⟩ hdefinitions (by decide)
  · obtain ⟨addr, haddr, hfind⟩ := hlabelled.formula [⟨top, Bytes.ofString "0x10"⟩] []
      ⟨base, Bytes.ofString "TOP"⟩ rfl (by decide) (by rw [hdefinitions]; decide)
    have hvalue : Predefine.address a.evaluate
        (Predefine.environment a.evaluate (Predefine.baseEnv 0) [⟨top, Bytes.ofString "0x10"⟩])
        (Bytes.ofString "TOP") = .ok 0x10 := rfl
    obtain rfl : (0x10 : UInt16) = addr := Except.ok.inj (hvalue.symm.trans haddr)
    exact hfind
  · exact hlabelled.last [⟨1, top, 0⟩, ⟨2, loop, 1⟩] [] ⟨5, loop, 2⟩ hdefinitions (by decide)
  · refine hlabelled.next ⟨2, loop, 1⟩ 2 cli (by rw [hdefinitions]; decide) rfl (by decide)
      (by decide) ?_ ?_
    · intro j before hj hbefore hline
      match j with
      | 0 =>
        obtain rfl := Option.some.inj hbefore
        exact absurd hline (by decide)
      | 1 =>
        obtain rfl := Option.some.inj hbefore
        rfl
    · intro k hlow hhigh
      have hlow : 2 ≤ k := hlow
      have hhigh : k < 4 := hhigh
      have hk : k = 2 ∨ k = 3 := by omega
      rcases hk with rfl | rfl <;> rfl
  · rw [hlabelled.warnings, hdefinitions]
    rfl

end BootSector
