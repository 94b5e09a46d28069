import BootSector.Proofs.Sweep

/-!
# Going on from another state

A line looks at the location, the reach and the labels of the state, and at nothing else in it.  So
two states that agree there go on alike: the same later lines are read in the same way, the same
statements are placed behind those that each state already had, and the same line has the first
fault (`Alike.run`).  Only the numbers of the lines may differ, by the number of lines that one
sweep is ahead of the other.
-/

namespace BootSector

/-- The statement, `d` lines further down. -/
def Statement.later (d : Nat) (st : Statement) : Statement := { st with lineNo := st.lineNo + d }

/-- The error, `d` lines further down. -/
def AssemblyError.later (d : Nat) : AssemblyError → AssemblyError
  | onLine number line fault => onLine (number + d) line fault
  | inPredefine name fault => inPredefine name fault

namespace Sweep

variable {d : Nat} {front front' : List Statement} {s t : Sweep}

/-- **Two states that go on alike**, the second one `d` lines further down.  They had the statements
`front` and `front'`, and have placed the same statements since. -/
structure Alike (d : Nat) (front front' : List Statement) (s t : Sweep) : Prop where
  location : t.location = s.location
  reach : t.reach = s.reach
  labels : t.labels = s.labels
  statements : ∃ more, s.statements.toList = front ++ more ∧
    t.statements.toList = front' ++ more.map (Statement.later d)

/-! ### One line -/

theorem Alike.noted (h : Alike d front front' s t) (verbose : Bool) (number : Nat) (line : Bytes) :
    Alike d front front' (s.noted verbose number line) (t.noted verbose (number + d) line) where
  location := by rw [noted_location, noted_location, h.location]
  reach := by rw [noted_reach, noted_reach, h.reach]
  labels := by rw [noted_labels, noted_labels, h.labels]
  statements := by
    rw [noted_statements, noted_statements]
    exact h.statements

theorem Alike.define (h : Alike d front front' s t) (number : Nat) (name : Bytes) :
    Alike d front front' (s.define number name) (t.define (number + d) name) where
  location := by rw [define_location, define_location, h.location]
  reach := by rw [define_reach, define_reach, h.reach]
  labels := by rw [define_labels, define_labels, h.labels, h.location]
  statements := by
    rw [define_statements, define_statements]
    exact h.statements

theorem Alike.place (h : Alike d front front' s t) (number : Nat) (line : Bytes) (i : Instruction) :
    Alike d front front' (s.place number line i).1 (t.place (number + d) line i).1 ∧
      (t.place (number + d) line i).2 = (s.place number line i).2 := by
  cases horg : i.isOrigin with
  | true =>
    cases i with
    | origin addr => exact ⟨⟨rfl, rfl, h.labels, h.statements⟩, rfl⟩
    | _ => cases horg
  | false =>
    rw [place_of_isOrigin horg, place_of_isOrigin horg, h.location, h.reach]
    split
    · exact ⟨h, rfl⟩
    · -- both place it at the same address, behind what they placed before
      obtain ⟨more, hs, ht⟩ := h.statements
      refine ⟨⟨rfl, rfl, h.labels, more ++ [⟨number, line, s.location.current, i⟩], ?_, ?_⟩, rfl⟩
      · rw [Array.toList_push, hs, List.append_assoc]
      · rw [Array.toList_push, ht, List.map_append, List.append_assoc]
        rfl

theorem Alike.statement (h : Alike d front front' s t) (number : Nat) (line : Bytes)
    (tokens : List Token) :
    Alike d front front' (s.statement number line tokens).1
        (t.statement (number + d) line tokens).1 ∧
      (t.statement (number + d) line tokens).2 = (s.statement number line tokens).2 := by
  unfold Sweep.statement
  split
  · exact ⟨h, rfl⟩
  · split
    · exact ⟨h, rfl⟩
    · exact h.place number line _

theorem Alike.tokens (h : Alike d front front' s t) (number : Nat) (line : Bytes)
    (tokens : List Token) :
    Alike d front front' (s.tokens number line tokens).1 (t.tokens (number + d) line tokens).1 ∧
      (t.tokens (number + d) line tokens).2 = (s.tokens number line tokens).2 := by
  unfold Sweep.tokens
  cases tokens with
  | nil => exact ⟨h, rfl⟩
  | cons first rest =>
    simp only [h.reach]
    split
    · split
      · exact ⟨h, rfl⟩
      · exact (h.define number first.text).statement number line rest
    · exact h.statement number line (first :: rest)

/-- **A line does the same to both states.** -/
theorem Alike.step (h : Alike d front front' s t) (verbose : Bool) (number : Nat) (line : Bytes) :
    Alike d front front' (s.step verbose number line).1 (t.step verbose (number + d) line).1 ∧
      (t.step verbose (number + d) line).2 = (s.step verbose number line).2 := by
  have hnoted := h.noted verbose number line
  rw [step_eq, step_eq, h.location]
  split
  · exact ⟨hnoted, rfl⟩
  · exact hnoted.tokens number line _

/-! ### Many lines -/

/-- **Lines do the same to both states**, up to the same first fault. -/
theorem Alike.run (h : Alike d front front' s t) (verbose : Bool) (number : Nat)
    (lines : List Bytes) :
    Alike d front front' (s.run verbose number lines).1 (t.run verbose (number + d) lines).1 ∧
      (t.run verbose (number + d) lines).2 =
        (s.run verbose number lines).2.map (AssemblyError.later d) := by
  induction lines generalizing s t number with
  | nil => exact ⟨h, rfl⟩
  | cons line rest ih =>
    obtain ⟨hstate, hfault⟩ := h.step verbose number line
    rw [Sweep.run, Sweep.run]
    rcases hs : s.step verbose number line with ⟨s₁, fault?⟩
    rcases ht : t.step verbose (number + d) line with ⟨t₁, fault?'⟩
    rw [hs, ht] at hstate hfault
    obtain rfl : fault?' = fault? := hfault
    cases fault?' with
    | some fault => exact ⟨hstate, rfl⟩
    | none =>
      have hrest := ih hstate (number + 1)
      rw [Nat.add_right_comm] at hrest
      exact hrest

/-- Lines take both states on, or neither. -/
theorem Alike.none_or_some (h : Alike d front front' s t) (verbose : Bool) (number : Nat)
    (lines : List Bytes) :
    (s.run? verbose number lines = none ∧ t.run? verbose (number + d) lines = none) ∨
      ∃ s' t', s.run? verbose number lines = some s' ∧
        t.run? verbose (number + d) lines = some t' ∧ Alike d front front' s' t' := by
  obtain ⟨hstate, herror⟩ := h.run verbose number lines
  unfold run?
  rcases hs : s.run verbose number lines with ⟨s', error?⟩
  rcases ht : t.run verbose (number + d) lines with ⟨t', error?'⟩
  rw [hs, ht] at hstate herror
  obtain rfl : error?' = error?.map (AssemblyError.later d) := herror
  cases error? with
  | none => exact .inr ⟨s', t', rfl, rfl, hstate⟩
  | some e => exact .inl ⟨rfl, rfl⟩

end Sweep

end BootSector
