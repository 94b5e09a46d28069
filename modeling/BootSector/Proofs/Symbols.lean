import BootSector.Program
import BootSector.Sequence.Consumer
import Mathlib.Data.List.Nodup

/-!
# The symbols of a program

A label table is a finite function, held as a list of entries in the order of its history.  The
symbols are its entries in an order of their own: by address, and by name where addresses are equal.
That order is total and no two symbols are equal in it, since no name is bound twice.  So the list
of symbols is determined by the function alone (`symbols_congr`): whatever is bound first or rebound
later, the same bindings give the same list.

`Program.symbolSequence` hands the symbols to a consumer that may stop.  It has then been handed an
initial part of the list, up to the symbol at which it stopped (`Sequence.Delivers`).
-/

namespace BootSector

/-! ### The bindings of a table -/

namespace LabelTable

variable {t u : LabelTable} {es bs cs : List (Bytes × UInt16)} {name : Bytes} {addr : UInt16}

theorem mem_of_findIn (h : findIn es name = some addr) : (name, addr) ∈ es := by
  induction es with
  | nil => cases h
  | cons e rest ih =>
    obtain ⟨n, a⟩ := e
    rw [findIn] at h
    split at h
    · rename_i hn
      obtain rfl := Option.some.inj h
      rw [beq_iff_eq.mp hn]
      exact List.mem_cons_self
    · exact List.mem_cons_of_mem _ (ih h)

theorem findIn_of_mem (hnodup : (es.map Prod.fst).Nodup) (h : (name, addr) ∈ es) :
    findIn es name = some addr := by
  induction es with
  | nil => cases h
  | cons e rest ih =>
    obtain ⟨n, a⟩ := e
    rw [List.map_cons, List.nodup_cons] at hnodup
    rw [findIn]
    rcases List.mem_cons.mp h with heq | hrest
    · obtain ⟨rfl, rfl⟩ := Prod.mk.inj heq
      rw [if_pos (beq_self_eq_true name)]
    · have hne : n ≠ name := by
        rintro rfl
        exact hnodup.1 (List.mem_map.mpr ⟨_, hrest, rfl⟩)
      rw [if_neg (fun heq => hne (beq_iff_eq.mp heq))]
      exact ih hnodup.2 hrest

/-- The entries of a table are its bindings. -/
theorem mem_entries_iff : (name, addr) ∈ t.entries ↔ t.find? name = some addr :=
  ⟨findIn_of_mem t.nodup, mem_of_findIn⟩

/-- The same bindings are the same entries, in some order. -/
theorem perm_entries (h : ∀ name, t.find? name = u.find? name) : t.entries.Perm u.entries := by
  rw [List.perm_ext_iff_of_nodup (List.Nodup.of_map _ t.nodup) (List.Nodup.of_map _ u.nodup)]
  rintro ⟨name, addr⟩
  rw [mem_entries_iff, mem_entries_iff, h]

/-- The table with some bindings added, one after another. -/
def bindAll (t : LabelTable) (bs : List (Bytes × UInt16)) : LabelTable :=
  bs.foldl (fun t b => t.bind b.1 b.2) t

/-- Bindings of distinct names are all there, whatever was bound before. -/
theorem find?_bindAll (hnodup : (bs.map Prod.fst).Nodup) (t : LabelTable) (name : Bytes) :
    (t.bindAll bs).find? name = (findIn bs name).or (t.find? name) := by
  induction bs generalizing t with
  | nil => rfl
  | cons b rest ih =>
    obtain ⟨n, a⟩ := b
    rw [List.map_cons, List.nodup_cons] at hnodup
    show ((t.bind n a).bindAll rest).find? name = _
    rw [ih hnodup.2, find?_bind, findIn]
    by_cases hn : n = name
    · subst hn
      -- the name is not bound again
      have hnone : findIn rest n = none := by
        rw [Option.eq_none_iff_forall_not_mem]
        intro addr hfind
        exact hnodup.1 (List.mem_map.mpr ⟨_, mem_of_findIn hfind, rfl⟩)
      rw [hnone, if_pos rfl, if_pos (beq_self_eq_true n)]
      rfl
    · rw [if_neg (Ne.symm hn), if_neg (fun heq => hn (beq_iff_eq.mp heq))]

/-- The order in which distinct names are bound makes no difference to the bindings. -/
theorem find?_bindAll_perm (hnodup : (bs.map Prod.fst).Nodup) (hperm : bs.Perm cs) (name : Bytes) :
    (empty.bindAll bs).find? name = (empty.bindAll cs).find? name := by
  have hnodup' : (cs.map Prod.fst).Nodup := (hperm.map Prod.fst).nodup_iff.mp hnodup
  rw [find?_bindAll hnodup, find?_bindAll hnodup', find?_empty, Option.or_none, Option.or_none]
  ext addr
  constructor
  · intro h
    exact findIn_of_mem hnodup' (hperm.mem_iff.mp (mem_of_findIn h))
  · intro h
    exact findIn_of_mem hnodup (hperm.mem_iff.mpr (mem_of_findIn h))

/-! ### The order of symbols -/

variable {a b c : Bytes × UInt16}

/-- **The strict order of symbols**: by address, then by name byte for byte. -/
def SymbolLt (a b : Bytes × UInt16) : Prop := a.2 < b.2 ∨ a.2 = b.2 ∧ a.1 < b.1

theorem symbolLe_iff : symbolLe a b = true ↔ a.2 < b.2 ∨ a.2 = b.2 ∧ a.1 ≤ b.1 := by
  simp [symbolLe]

theorem symbolLe_trans (a b c : Bytes × UInt16) (hab : symbolLe a b = true)
    (hbc : symbolLe b c = true) : symbolLe a c = true := by
  rw [symbolLe_iff] at hab hbc ⊢
  rcases hab with hab | ⟨hab, hnames⟩
  · rcases hbc with hbc | ⟨hbc, -⟩
    · exact .inl (UInt16.lt_trans hab hbc)
    · exact .inl (hbc ▸ hab)
  · rcases hbc with hbc | ⟨hbc, hnames'⟩
    · exact .inl (hab ▸ hbc)
    · exact .inr ⟨hab.trans hbc, List.le_trans hnames hnames'⟩

theorem symbolLe_total (a b : Bytes × UInt16) : (symbolLe a b || symbolLe b a) = true := by
  rw [Bool.or_eq_true, symbolLe_iff, symbolLe_iff]
  by_cases hlt : a.2 < b.2
  · exact .inl (.inl hlt)
  by_cases hgt : b.2 < a.2
  · exact .inr (.inl hgt)
  -- at equal addresses the names decide
  have haddr : a.2 = b.2 := UInt16.le_antisymm (UInt16.not_lt.mp hgt) (UInt16.not_lt.mp hlt)
  rcases List.le_total a.1 b.1 with hle | hle
  · exact .inl (.inr ⟨haddr, hle⟩)
  · exact .inr (.inr ⟨haddr.symm, hle⟩)

theorem symbolLe_antisymm (hab : symbolLe a b = true) (hba : symbolLe b a = true) : a = b := by
  rw [symbolLe_iff] at hab hba
  rcases hab with hab | ⟨haddr, hab⟩
  · rcases hba with hba | ⟨hba, -⟩
    · exact absurd hab (UInt16.lt_asymm hba)
    · exact absurd hab (hba ▸ UInt16.lt_irrefl _)
  · rcases hba with hba | ⟨-, hba⟩
    · exact absurd hba (haddr ▸ UInt16.lt_irrefl _)
    · exact Prod.ext (List.le_antisymm hab hba) haddr

theorem perm_symbols (t : LabelTable) : t.symbols.Perm t.entries := List.mergeSort_perm _ _

theorem pairwise_symbolLe (t : LabelTable) :
    t.symbols.Pairwise fun a b => symbolLe a b = true :=
  List.pairwise_mergeSort symbolLe_trans symbolLe_total _

/-- No name is listed twice. -/
theorem nodup_symbols (t : LabelTable) : (t.symbols.map Prod.fst).Nodup :=
  (t.perm_symbols.map Prod.fst).nodup_iff.mpr t.nodup

/-- **The symbols are the bindings of the table.** -/
theorem mem_symbols_iff : (name, addr) ∈ t.symbols ↔ t.find? name = some addr := by
  rw [t.perm_symbols.mem_iff, mem_entries_iff]

/-- **The symbols are strictly increasing.** -/
theorem pairwise_symbols (t : LabelTable) : t.symbols.Pairwise SymbolLt := by
  have hnames : t.symbols.Pairwise fun a b => a.1 ≠ b.1 := List.pairwise_map.mp t.nodup_symbols
  refine (t.pairwise_symbolLe.and hnames).imp ?_
  rintro a b ⟨hle, hne⟩
  refine (symbolLe_iff.mp hle).imp_right fun ⟨haddr, hname⟩ => ⟨haddr, ?_⟩
  exact (List.le_iff_lt_or_eq.mp hname).resolve_right hne

/-- The symbols are the only list of the entries in this order. -/
theorem symbols_eq_of_perm (hperm : es.Perm t.entries)
    (hsorted : es.Pairwise fun a b => symbolLe a b = true) : t.symbols = es := by
  have hsame : t.symbols.Perm es := t.perm_symbols.trans hperm.symm
  refine hsame.eq_of_pairwise (fun a b _ _ hab hba => ?_) t.pairwise_symbolLe hsorted
  exact symbolLe_antisymm hab hba

/-- **The symbols depend on the bindings alone.** -/
theorem symbols_congr (h : ∀ name, t.find? name = u.find? name) : t.symbols = u.symbols :=
  symbols_eq_of_perm (u.perm_symbols.trans (perm_entries h).symm) u.pairwise_symbolLe

/-- Binding the symbols gives the bindings of the table back. -/
theorem find?_bindAll_symbols (t : LabelTable) (name : Bytes) :
    (empty.bindAll t.symbols).find? name = t.find? name := by
  rw [find?_bindAll t.nodup_symbols, find?_empty, Option.or_none]
  ext addr
  constructor
  · intro h
    exact mem_symbols_iff.mp (mem_of_findIn h)
  · intro h
    exact findIn_of_mem t.nodup_symbols (mem_symbols_iff.mpr h)

/-- **A sequence lists a table** in the canonical order. -/
structure ListedBy (t : LabelTable) (seq : Sequence (Bytes × UInt16)) : Prop where
  /-- Every bound name is listed with its address, and nothing else is. -/
  mem_iff (name : Bytes) (addr : UInt16) : (name, addr) ∈ seq.toList ↔ t.find? name = some addr
  /-- No name is listed twice. -/
  nodup : (seq.toList.map Prod.fst).Nodup
  /-- The pairs are strictly increasing by address and then by name. -/
  increasing : seq.toList.Pairwise SymbolLt
  /-- Collecting the pairs gives the table back. -/
  collected (name : Bytes) : (empty.bindAll seq.toList).find? name = t.find? name
  /-- A consumer that wants more behind some pairs and stops at the next one is handed just these
  and that one; and a consumer that does not stop is handed all pairs. -/
  delivers : seq.Delivers seq.toList

end LabelTable

namespace Program

open LabelTable

/-- **The symbols of a program are its label table in a canonical order.**  Tables with the same
bindings have the same sequence of symbols; in particular, it makes no difference in which order
distinct names were bound. -/
theorem symbols_canonical (p : Program) :
    p.labels.ListedBy p.symbolSequence ∧
      (∀ q : Program, (∀ name, q.labels.find? name = p.labels.find? name) →
        q.symbolSequence = p.symbolSequence) ∧
      ∀ (bs cs : List (Bytes × UInt16)) (sts : List Statement) (strict : Bool),
        (bs.map Prod.fst).Nodup → bs.Perm cs →
        symbolSequence ⟨sts, empty.bindAll bs, strict⟩ =
          symbolSequence ⟨sts, empty.bindAll cs, strict⟩ := by
  have hlist : p.symbolSequence.toList = p.labels.symbols := Sequence.toList_ofList _
  have hcongr (q r : Program) (h : ∀ name, q.labels.find? name = r.labels.find? name) :
      q.symbolSequence = r.symbolSequence := congrArg Sequence.ofList (symbols_congr h)
  refine ⟨?_, fun q hq => hcongr q p hq, ?_⟩
  · constructor
    case mem_iff => intro name addr; rw [hlist, mem_symbols_iff]
    case nodup => rw [hlist]; exact p.labels.nodup_symbols
    case increasing => rw [hlist]; exact p.labels.pairwise_symbols
    case collected => intro name; rw [hlist, find?_bindAll_symbols]
    case delivers => rw [hlist]; exact Sequence.delivers_ofList _
  · intro bs cs sts strict hnodup hperm
    exact hcongr _ _ (find?_bindAll_perm hnodup hperm)

/-- Two tables with the same bindings, one of them with a name that was bound twice.  Two names share
an address, and a consumer stops between them. -/
theorem symbols_canonical_rebound :
    let zed := Bytes.ofString "zed"
    let beta := Bytes.ofString "beta"
    let alpha := Bytes.ofString "alpha"
    let p : Program := ⟨[], ((empty.bind beta 9).bind zed 0).bind alpha 1 |>.bind beta 1, false⟩
    let q : Program := ⟨[], ((empty.bind alpha 1).bind beta 1).bind zed 0, true⟩
    p.labels.entries ≠ q.labels.entries ∧
      p.symbolSequence.toList = [(zed, 0), (alpha, 1), (beta, 1)] ∧
      q.symbolSequence = p.symbolSequence ∧
      p.symbolSequence.handed Sequence.keepSome (2, []) = [(zed, 0), (alpha, 1)] ∧
      symbolSequence ⟨[], empty.bindAll [(beta, 1), (zed, 0)], false⟩ =
        symbolSequence ⟨[], empty.bindAll [(zed, 0), (beta, 1)], false⟩ := by
  intro zed beta alpha p q
  have hbindings (name : Bytes) : q.labels.find? name = p.labels.find? name := by
    simp only [p, q, find?_bind, find?_empty]
    by_cases hbeta : name = beta
    · rw [if_pos hbeta, if_pos hbeta, if_neg (by rw [hbeta]; decide)]
    · rw [if_neg hbeta, if_neg hbeta]
      by_cases halpha : name = alpha
      · rw [if_pos halpha, if_pos halpha, if_neg (by rw [halpha]; decide)]
      · rw [if_neg halpha, if_neg halpha, if_neg hbeta]
  have hlist : p.symbolSequence.toList = [(zed, 0), (alpha, 1), (beta, 1)] := by
    have hsymbols : p.labels.symbols = [(zed, 0), (alpha, 1), (beta, 1)] :=
      symbols_eq_of_perm (by decide) (by decide)
    rw [← hsymbols]
    exact Sequence.toList_ofList _
  have hcanonical := symbols_canonical p
  refine ⟨by decide, hlist, hcanonical.2.1 q hbindings, ?_, ?_⟩
  · rw [hcanonical.1.delivers.handed_eq_take (Consumer.stopsAfter_keepSome 1 []), hlist]
    rfl
  · exact hcanonical.2.2 _ _ [] false (by decide) (List.Perm.swap _ _ _)

end Program

end BootSector
