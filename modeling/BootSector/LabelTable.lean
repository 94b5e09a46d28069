import BootSector.Fault

/-!
# Label tables

A label table gives addresses to names.  Names are told apart byte by byte, and binding a name again
replaces its address.  The table is held as the list of its entries, in the order in which the names
were first bound, and no name occurs twice in it.
-/

namespace BootSector

/-- **A label table.** -/
structure LabelTable where
  /-- The names with their addresses. -/
  entries : List (Bytes × UInt16) := []
  /-- No name occurs twice. -/
  nodup : (entries.map Prod.fst).Nodup := by simp
  deriving DecidableEq

namespace LabelTable

/-- The table that binds nothing. -/
def empty : LabelTable := {}

/-! ### Entries -/

/-- The address of a name in a list of entries. -/
def findIn : List (Bytes × UInt16) → Bytes → Option UInt16
  | [], _ => none
  | (n, a) :: rest, name => if n == name then some a else findIn rest name

/-- The entries with a new address for a name, which keeps its place. -/
def bindIn : List (Bytes × UInt16) → Bytes → UInt16 → List (Bytes × UInt16)
  | [], name, addr => [(name, addr)]
  | (n, a) :: rest, name, addr =>
    if n == name then (n, addr) :: rest else (n, a) :: bindIn rest name addr

theorem mem_names_bindIn (es : List (Bytes × UInt16)) (name : Bytes) (addr : UInt16) (m : Bytes) :
    m ∈ (bindIn es name addr).map Prod.fst ↔ m = name ∨ m ∈ es.map Prod.fst := by
  induction es with
  | nil => simp [bindIn]
  | cons e rest ih =>
    obtain ⟨n, a⟩ := e
    by_cases h : n = name
    · subst h; simp [bindIn]
    · simp only [bindIn, beq_iff_eq, h, ite_false, List.map_cons, List.mem_cons, ih]
      exact or_left_comm

theorem nodup_bindIn (es : List (Bytes × UInt16)) (name : Bytes) (addr : UInt16)
    (h : (es.map Prod.fst).Nodup) : ((bindIn es name addr).map Prod.fst).Nodup := by
  induction es with
  | nil => simp [bindIn]
  | cons e rest ih =>
    obtain ⟨n, a⟩ := e
    simp only [List.map_cons, List.nodup_cons] at h
    by_cases hn : n = name
    · simpa only [bindIn, beq_iff_eq, hn, ite_true, List.map_cons, List.nodup_cons] using hn ▸ h
    · simp only [bindIn, beq_iff_eq, hn, ite_false, List.map_cons, List.nodup_cons]
      refine ⟨fun hm => ?_, ih h.2⟩
      rcases (mem_names_bindIn rest name addr n).1 hm with he | hr
      · exact hn he
      · exact h.1 hr

/-! ### Operations -/

/-- The address bound to a name. -/
def find? (t : LabelTable) (name : Bytes) : Option UInt16 := findIn t.entries name

/-- The table with `name` bound to `addr`, whatever it was bound to before. -/
def bind (t : LabelTable) (name : Bytes) (addr : UInt16) : LabelTable where
  entries := bindIn t.entries name addr
  nodup := nodup_bindIn t.entries name addr t.nodup

/-- The address bound to a name; it is a fault if there is none. -/
def resolve (t : LabelTable) (name : Bytes) : Except Fault UInt16 :=
  match t.find? name with
  | some addr => .ok addr
  | none => .error (.labelMissing name)

/-! ### Symbols -/

/-- The order in which symbols are listed: by address, then by name byte for byte. -/
def symbolLe (a b : Bytes × UInt16) : Bool :=
  a.2 < b.2 || (a.2 == b.2 && decide (a.1 ≤ b.1))

/-- The bound names with their addresses, by address and then by name. -/
def symbols (t : LabelTable) : List (Bytes × UInt16) := t.entries.mergeSort symbolLe

/-! ### The view of a table as a function -/

@[simp] theorem find?_empty (name : Bytes) : empty.find? name = none := rfl

theorem findIn_bindIn (es : List (Bytes × UInt16)) (name : Bytes) (addr : UInt16) (m : Bytes) :
    findIn (bindIn es name addr) m = if m = name then some addr else findIn es m := by
  induction es with
  | nil => simp [bindIn, findIn, @eq_comm _ name m]
  | cons e rest ih =>
    obtain ⟨n, a⟩ := e
    by_cases hn : n = name
    · subst hn
      by_cases hm : m = n
      · subst hm; simp [bindIn, findIn]
      · simp [bindIn, findIn, hm, Ne.symm hm]
    · by_cases hm : n = m
      · subst hm; simp [bindIn, findIn, hn]
      · simp [bindIn, findIn, hn, hm, ih]

@[simp] theorem find?_bind (t : LabelTable) (name : Bytes) (addr : UInt16) (m : Bytes) :
    (t.bind name addr).find? m = if m = name then some addr else t.find? m :=
  findIn_bindIn t.entries name addr m

end LabelTable

end BootSector
