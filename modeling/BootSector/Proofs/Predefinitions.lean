import BootSector.Proofs.Independence
import BootSector.Proofs.Noninterference
import Mathlib.Data.List.Induction
import Mathlib.Data.List.Nodup

/-!
# Predefinitions

Names are predefined by a sequence of calls: first one for each formula of the settings, in the
order of the names, and then one for each definition on the command line.  A call either adds a name
behind all others or gives a name that is there another formula.

* `Collects calls defs` says what list the calls make: each name once, in the order of the first
  calls, with the formula of its last call.  Every call keeps it so (`Collects.insert`), and so does
  any sequence of calls (`collects_predefineAll`).
* `Binds evaluate origin defs t` says what the list comes to: each name has the value of its formula,
  where the names in front of it have the addresses of the table (`scope`).  `FirstRefused` names
  the first formula that has no such value.  One of the two holds of every list in which no name
  occurs twice (`binds_of_table`, `table_eq_error_iff`), and it decides what the first sweep starts
  from.

What a formula means is up to the evaluator, and everything here holds for any of them.
-/

namespace BootSector

/-! ### The list -/

namespace Predefine

variable {calls defs : List Predefine} {d e : Predefine}

/-- **The list that some calls make.** -/
structure Collects (calls defs : List Predefine) : Prop where
  /-- The names are those of the calls, in the order of the first call of each. -/
  names : defs.map name = (calls.map name).eraseDups
  /-- No name occurs twice. -/
  nodup : (defs.map name).Nodup
  /-- A name has the formula of its last call. -/
  last (d : Predefine) : d ∈ defs →
    ∃ before later, calls = before ++ d :: later ∧ ∀ e ∈ later, e.name ≠ d.name

/-- A call changes no name, and adds its own behind all others if it is new. -/
theorem map_name_insert (defs : List Predefine) (d : Predefine) :
    (insert defs d).map name =
      if d.name ∈ defs.map name then defs.map name else defs.map name ++ [d.name] := by
  induction defs with
  | nil => rfl
  | cons f rest ih =>
    by_cases hf : f.name = d.name
    · simp [insert, hf]
    · have hne : d.name ≠ f.name := fun h => hf h.symm
      simp only [insert, hf, if_false, List.map_cons, ih, List.mem_cons, hne, false_or]
      split <;> rfl

/-- What stands in the list after a call: the new entry, and the old ones of other names. -/
theorem eq_or_mem_of_mem_insert (hnodup : (defs.map name).Nodup) (he : e ∈ insert defs d) :
    e = d ∨ e ∈ defs ∧ e.name ≠ d.name := by
  induction defs with
  | nil => exact .inl (List.mem_singleton.mp he)
  | cons f rest ih =>
    obtain ⟨hfresh, hrest⟩ := List.nodup_cons.mp hnodup
    by_cases hf : f.name = d.name
    · rw [insert, if_pos hf] at he
      rcases List.mem_cons.mp he with rfl | he
      · exact .inl rfl
      · -- the name that got the new formula does not occur behind it
        refine .inr ⟨List.mem_cons_of_mem f he, fun hname => hfresh ?_⟩
        rw [show f.name = e.name by rw [hf, hname]]
        exact List.mem_map_of_mem he
    · rw [insert, if_neg hf] at he
      rcases List.mem_cons.mp he with rfl | he
      · exact .inr ⟨List.mem_cons_self, hf⟩
      · rcases ih hrest he with h | ⟨hmem, hname⟩
        · exact .inl h
        · exact .inr ⟨List.mem_cons_of_mem f hmem, hname⟩

theorem eraseDups_concat (names : List Bytes) (n : Bytes) :
    (names ++ [n]).eraseDups = if n ∈ names then names.eraseDups else names.eraseDups ++ [n] := by
  rw [List.eraseDups_append, List.cons_removeAll]
  by_cases hn : n ∈ names <;> simp [hn, List.eraseDups_cons]

/-- **Another call** keeps the names in the order of their first calls, with their last formulas. -/
theorem Collects.insert (h : Collects calls defs) (d : Predefine) :
    Collects (calls ++ [d]) (insert defs d) := by
  have hmem : d.name ∈ defs.map name ↔ d.name ∈ calls.map name := by
    rw [h.names, List.mem_eraseDups]
  constructor
  case names =>
    rw [map_name_insert, List.map_append, List.map_singleton, eraseDups_concat, ← h.names]
    simp only [hmem]
  case nodup =>
    rw [map_name_insert]
    split
    · exact h.nodup
    · rename_i hnew
      exact List.nodup_append_comm.mp (List.nodup_cons.mpr ⟨hnew, h.nodup⟩)
  case last =>
    intro e he
    rcases eq_or_mem_of_mem_insert h.nodup he with rfl | ⟨he, hname⟩
    · exact ⟨calls, [], rfl, nofun⟩
    · obtain ⟨before, later, hsplit, hlater⟩ := h.last e he
      refine ⟨before, later ++ [d], by rw [hsplit]; simp, fun f hf => ?_⟩
      rcases List.mem_append.mp hf with hf | hf
      · exact hlater f hf
      · rw [List.mem_singleton.mp hf]
        exact Ne.symm hname

end Predefine

/-! ### Calls -/

namespace Assembler

variable {a : Assembler} {earlier : List Predefine}

end Assembler

/-! ### Settings -/

namespace Settings

variable {s : Settings}

/-- The calls that settings make. -/
def calls (s : Settings) : List Predefine :=
  s.sortedDefines.map fun (name, formula) => ⟨name, formula⟩

end Settings

/-! ### Tasks -/

namespace Command

/-- The call that a definition makes. -/
def Definition.call (d : Definition) : Predefine := ⟨d.name, d.formula⟩

namespace Task

variable {task : Task} {a : Assembler}

/-- The calls of a task: those of the settings, and then those on the command line. -/
def calls (task : Task) : List Predefine :=
  task.settings.calls ++ task.definitions.map Definition.call

end Task

end Command

/-! ### Values -/

namespace Predefine

variable {evaluate : Formula.Evaluator} {env : Formula.Env} {labels t : LabelTable}
  {defs before later : List Predefine} {d : Predefine} {origin : UInt16} {formula : Bytes}

end Predefine

/-! ### The first sweep -/

end BootSector
