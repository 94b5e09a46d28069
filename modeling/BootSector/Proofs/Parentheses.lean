import BootSector.Proofs.Acceptance
import BootSector.Proofs.Rendering
import Mathlib.Data.List.Infix

/-!
# Parentheses that are counted and parentheses that are stacked

Two stages of folding look at the same parentheses.  The group is found by a counter, which goes up
and down and stops at zero; it is reordered with a stack, on which the opening parentheses wait
among the operators.  The stack has faults of its own, for a closing parenthesis without an opening
one and for an opening one that is left over, and none of them can occur: a list on which the
counter comes down from `n` to zero consists of `n` balanced pieces with a closing parenthesis
behind each (`Closes`), and the stack passes over a balanced list.

So the fault of a mismatched parenthesis is the counter's alone.  `depth` is what it counts, and it
is raised exactly if the depth does not come back to zero (`Unclosed`).  `fold_outcomes` lists all
that folding can end with.
-/

namespace BootSector.Token

variable {seen tokens ts group after : List Token} {t : Token} {n : Nat}

/-! ### Nesting depth -/

/-- **The nesting depth** behind a list: its opening parentheses less its closing ones. -/
def depth (ts : List Token) : Int :=
  ts.countP (·.kind == .openParen) - ts.countP (·.kind == .closeParen)

@[simp] theorem depth_nil : depth [] = 0 := rfl

theorem depth_cons (t : Token) (ts : List Token) : depth (t :: ts) = depth [t] + depth ts := by
  simp only [depth, List.countP_cons, List.countP_nil]
  omega

theorem depth_openParen (ht : t.kind = .openParen) : depth [t] = 1 := by
  simp [depth, ht]

theorem depth_closeParen (ht : t.kind = .closeParen) : depth [t] = -1 := by
  simp [depth, ht]

theorem depth_of_ne (ho : t.kind ≠ .openParen) (hc : t.kind ≠ .closeParen) : depth [t] = 0 := by
  simp [depth, ho, hc]

/-- The depth, which is `d` in front of the list, is not zero anywhere in it. -/
def StaysOpen (d : Int) (ts : List Token) : Prop := ∀ front, front <+: ts → d + depth front ≠ 0

theorem staysOpen_nil {d : Int} : StaysOpen d [] ↔ d ≠ 0 := by
  simp [StaysOpen]

theorem not_staysOpen_zero (ts : List Token) : ¬ StaysOpen 0 ts :=
  fun h => h [] List.nil_prefix rfl

/-- The depth is not zero in front of the list, nor behind its first token or later. -/
theorem staysOpen_cons {d : Int} :
    StaysOpen d (t :: ts) ↔ d ≠ 0 ∧ StaysOpen (d + depth [t]) ts := by
  constructor
  · intro h
    refine ⟨by simpa using h [] List.nil_prefix, fun front hfront => ?_⟩
    have hdepth := h (t :: front) (List.cons_prefix_cons.mpr ⟨rfl, hfront⟩)
    rwa [depth_cons, ← Int.add_assoc] at hdepth
  · rintro ⟨hd, h⟩ front hfront
    rcases List.prefix_cons_iff.mp hfront with rfl | ⟨front', rfl, hfront'⟩
    · simpa using hd
    · rw [depth_cons, ← Int.add_assoc]
      exact h front' hfront'

/-! ### Counting -/

/-- Counting runs into the end of the list exactly if the list is arithmetic throughout and the
depth stays above zero. -/
theorem closeGroup_eq_mismatchedParen_iff (seen : List Token) (n : Nat) (ts : List Token) :
    closeGroup seen (n + 1) ts = .error .mismatchedParen ↔
      ts.all isArithmetic = true ∧ StaysOpen (n + 1) ts := by
  induction ts generalizing seen n with
  | nil =>
    have hpos : (n + 1 : Int) ≠ 0 := by omega
    simp [closeGroup, staysOpen_nil, hpos]
  | cons t ts ih =>
    have hpos : (n + 1 : Int) ≠ 0 := by omega
    -- counter and depth take the same step, up, down or none, as long as neither is zero
    rw [closeGroup, List.all_cons, Bool.and_eq_true, staysOpen_cons]
    split_ifs with ho hc hone hpass
    · rw [ih, depth_openParen ho]
      simp [isArithmetic_of_openParen ho, hpos]
    · -- both come to zero: the group is found
      obtain rfl : n = 0 := by omega
      rw [depth_closeParen hc]
      simp [not_staysOpen_zero]
    · obtain ⟨n, rfl⟩ : ∃ m, n = m + 1 := ⟨n - 1, by omega⟩
      have hpos : (n + 1 + 1 : Int) ≠ 0 := by omega
      rw [Nat.add_sub_cancel, ih, depth_closeParen hc, Int.add_neg_cancel_right]
      simp [isArithmetic_of_closeParen hc, hpos]
    · rw [ih, depth_of_ne ho hc, isArithmetic_of_ne ho hc, hpass]
      simp [hpos]
    · rw [isArithmetic_of_ne ho hc]
      simp [hpass]

theorem closeGroup_error {fault : Fault} (h : closeGroup seen n ts = .error fault) :
    fault = .mismatchedParen ∨ fault = .invalidArithmetic := by
  fun_induction closeGroup seen n ts with
  | case1 => exact .inl (Except.error.inj h).symm
  | case2 seen n t rest ho ih => exact ih h
  | case3 => cases h
  | case4 seen n t rest ho hc hone ih => exact ih h
  | case5 seen n t rest ho hc hpass ih => exact ih h
  | case6 => exact .inr (Except.error.inj h).symm

/-- **The list closes `n` parentheses**: it consists of `n` balanced pieces, each with a closing
parenthesis behind it. -/
inductive Closes : Nat → List Token → Prop where
  | zero : Closes 0 []
  | succ {n : Nat} {c : Token} {ts us : List Token} (h : Balanced ts) (hc : c.kind = .closeParen)
    (hus : Closes n us) : Closes (n + 1) (ts ++ c :: us)

theorem Closes.openParen {n : Nat} {o : Token} {ts : List Token} (ho : o.kind = .openParen)
    (h : Closes (n + 1 + 1) ts) : Closes (n + 1) (o :: ts) := by
  cases h with
  | @succ _ c ts us hts hc hus =>
  cases hus with
  | @succ _ c' us vs hus hc' hvs =>
    -- the first two pieces and the parentheses around the first one become one piece
    have hpiece : Balanced (o :: ts ++ c :: us) := .parens ho hc hts hus
    have hcloses := Closes.succ hpiece hc' hvs
    simpa using hcloses

theorem Closes.token {n : Nat} {t : Token} {ts : List Token} (ho : t.kind ≠ .openParen)
    (hc : t.kind ≠ .closeParen) (h : Closes (n + 1) ts) : Closes (n + 1) (t :: ts) := by
  cases h with
  | succ hts hc' hus => exact .succ (.token ho hc hts) hc' hus

/-- **What the counter passes over** closes as many parentheses as were open. -/
theorem exists_closes_of_closeGroup (h : closeGroup seen (n + 1) tokens = .ok (group, after)) :
    ∃ ts, group = seen.reverse ++ ts ∧ tokens = ts ++ after ∧ Closes (n + 1) ts ∧
      ts.all isArithmetic = true := by
  induction tokens generalizing seen n with
  | nil => cases h
  | cons t tokens ih =>
    rw [closeGroup] at h
    split_ifs at h with ho hc hone hpass
    · -- one more parenthesis is closed behind an opening one than is asked for here
      obtain ⟨ts, rfl, rfl, hcloses, hall⟩ := ih h
      exact ⟨t :: ts, by simp, rfl, hcloses.openParen ho,
        by rw [List.all_cons, isArithmetic_of_openParen ho, hall]; rfl⟩
    · obtain rfl : n = 0 := by omega
      obtain ⟨rfl, rfl⟩ := Prod.mk.inj (Except.ok.inj h)
      exact ⟨[t], by simp, rfl, .succ .nil hc .zero, by simp [isArithmetic_of_closeParen hc]⟩
    · obtain ⟨n, rfl⟩ : ∃ m, n = m + 1 := ⟨n - 1, by omega⟩
      obtain ⟨ts, rfl, rfl, hcloses, hall⟩ := ih h
      exact ⟨t :: ts, by simp, rfl, .succ .nil hc hcloses,
        by rw [List.all_cons, isArithmetic_of_closeParen hc, hall]; rfl⟩
    · obtain ⟨ts, rfl, rfl, hcloses, hall⟩ := ih h
      exact ⟨t :: ts, by simp, rfl, hcloses.token ho hc,
        by rw [List.all_cons, isArithmetic_of_ne ho hc, hpass, hall]; rfl⟩

/-! ### The first group -/

/-- A list with an opening parenthesis has a first one. -/
theorem exists_first_openParen (h : ¬ ∀ t ∈ tokens, t.kind ≠ .openParen) :
    ∃ pre o rest, tokens = pre ++ o :: rest ∧ (∀ t ∈ pre, t.kind ≠ .openParen) ∧
      o.kind = .openParen := by
  cases hfind : tokens.find? (·.kind == .openParen) with
  | none =>
    rw [List.find?_eq_none] at hfind
    exact absurd (fun t ht => by simpa using hfind t ht) h
  | some o =>
    obtain ⟨ho, pre, rest, rfl, hpre⟩ := List.find?_eq_some_iff_append.mp hfind
    exact ⟨pre, o, rest, rfl, fun t ht => by simpa using hpre t ht, by simpa using ho⟩

/-- **The group that is found** is a balanced list of arithmetic in parentheses. -/
theorem exists_balanced_of_firstGroup {g : Grouped} (h : firstGroup tokens = .ok (some g)) :
    ∃ o ts c, (∀ t ∈ g.before, t.kind ≠ .openParen) ∧ o.kind = .openParen ∧
      c.kind = .closeParen ∧ Balanced ts ∧ ts.all isArithmetic = true ∧
      g.group = o :: ts ++ [c] ∧ tokens = g.before ++ g.group ++ g.after := by
  by_cases hnone : ∀ t ∈ tokens, t.kind ≠ .openParen
  · rw [firstGroup_eq_none hnone] at h
    cases h
  · obtain ⟨pre, o, rest, rfl, hpre, ho⟩ := exists_first_openParen hnone
    rw [firstGroup_append hpre ho] at h
    cases hclose : closeGroup [o] 1 rest with
    | error fault =>
      rw [hclose] at h
      cases h
    | ok r =>
      obtain ⟨group, after⟩ := r
      rw [hclose] at h
      obtain rfl := Option.some.inj (Except.ok.inj h)
      obtain ⟨body, hgroup, hrest, hcloses, hall⟩ := exists_closes_of_closeGroup (n := 0) hclose
      -- a single parenthesis is closed: one balanced piece
      cases hcloses with
      | @succ _ c ts us hts hc hus =>
      cases hus with
      | zero =>
        have hall' : ts.all isArithmetic = true := by
          rw [List.all_append, Bool.and_eq_true] at hall
          exact hall.1
        exact ⟨o, ts, c, hpre, ho, hc, hts, hall', by simpa using hgroup, by simp [hgroup, hrest]⟩

/-! ### Reordering -/

variable {output polish : List Token}

/-- An operator moves what is on top of the stack, the topmost first. -/
theorem exists_moved_yieldTo (t : Token) (output stack : List Token) :
    ∃ moved kept, stack = moved ++ kept ∧
      yieldTo t output stack = (moved.reverse ++ output, kept) := by
  induction stack generalizing output with
  | nil => exact ⟨[], [], rfl, rfl⟩
  | cons top stack ih =>
    rw [yieldTo]
    split
    · obtain ⟨moved, kept, rfl, hyield⟩ := ih (top :: output)
      exact ⟨top :: moved, kept, rfl, by simp [hyield]⟩
    · exact ⟨[], top :: stack, rfl, rfl⟩

/-- So does a closing parenthesis, which also drops the opening one below. -/
theorem exists_moved_of_yieldGroup {stack output' kept : List Token}
    (h : yieldGroup output stack = .ok (output', kept)) :
    ∃ moved o, stack = moved ++ o :: kept ∧ output' = moved.reverse ++ output := by
  induction stack generalizing output with
  | nil => cases h
  | cons top stack ih =>
    rw [yieldGroup] at h
    split at h
    · obtain ⟨rfl, rfl⟩ := Prod.mk.inj (Except.ok.inj h)
      exact ⟨[], top, rfl, rfl⟩
    · obtain ⟨moved, o, rfl, rfl⟩ := ih h
      exact ⟨top :: moved, o, rfl, by simp⟩

theorem eq_of_yieldAll {stack : List Token} (h : yieldAll output stack = .ok polish) :
    polish = output.reverse ++ stack := by
  induction stack generalizing output with
  | nil => rw [List.append_nil, Except.ok.inj h]
  | cons top stack ih =>
    rw [yieldAll] at h
    split at h
    · rw [ih h, List.reverse_cons, List.append_assoc]
      rfl
    · cases h

/-- The operands of a list, as numbers. -/
def operands (ts : List Token) : List Token := (ts.filter isValue).map fun t => number t.value

theorem operands_cons_of_isValue (ht : t.isValue = true) (ts : List Token) :
    operands (t :: ts) = number t.value :: operands ts := by
  simp [operands, ht]

theorem operands_cons_of_not (ht : ¬ t.isValue = true) (ts : List Token) :
    operands (t :: ts) = operands ts := by
  simp [operands, ht]

theorem filter_isValue_eq_nil (h : ∀ t ∈ ts, t.isValue = false) : ts.filter isValue = [] :=
  List.filter_eq_nil_iff.mpr fun t ht => Bool.eq_false_iff.mp (h t ht)

/-- Moving what is no operand leaves the operands of the output as they are. -/
theorem filter_isValue_moved {moved : List Token} (h : ∀ t ∈ moved, t.isValue = false)
    (output : List Token) : (moved.reverse ++ output).filter isValue = output.filter isValue := by
  rw [List.filter_append, List.filter_reverse, filter_isValue_eq_nil h]
  rfl

/-- **Reordering keeps the operands in their order**, since none of them waits on the stack. -/
theorem filter_isValue_of_polishOnto {pending : Stack Token}
    (hpending : ∀ u ∈ pending.items, u.isValue = false)
    (h : polishOnto output pending ts = .ok polish) :
    polish.filter isValue = (output.filter isValue).reverse ++ operands ts := by
  fun_induction polishOnto output pending ts with
  | case1 output pending =>
    rw [eq_of_yieldAll h, List.filter_append, List.filter_reverse, filter_isValue_eq_nil hpending]
    rfl
  | case2 output pending t rest ht ih =>
    rw [ih hpending h, List.filter_cons_of_pos rfl, operands_cons_of_isValue ht]
    simp
  | case3 output pending t rest ht hop output' operators hyield ih =>
    -- what moves comes from the stack, and what is put on it is the operator
    obtain ⟨moved, kept, hitems, hmoved⟩ := exists_moved_yieldTo t output pending.items
    obtain ⟨rfl, rfl⟩ := Prod.mk.inj (hyield.symm.trans hmoved)
    rw [hitems, List.forall_mem_append] at hpending
    have hwaiting : ∀ u ∈ t :: operators, u.isValue = false :=
      List.forall_mem_cons.mpr ⟨Bool.eq_false_iff.mpr ht, hpending.2⟩
    rw [ih hwaiting h, filter_isValue_moved hpending.1, operands_cons_of_not ht]
  | case4 output pending t rest ht hop ho ih =>
    have hwaiting : ∀ u ∈ (pending.push t).items, u.isValue = false :=
      List.forall_mem_cons.mpr ⟨Bool.eq_false_iff.mpr ht, hpending⟩
    rw [ih hwaiting h, operands_cons_of_not ht]
  | case5 => cases h
  | case6 output pending t rest ht hop ho hc output' operators hyield ih =>
    obtain ⟨moved, o, hitems, rfl⟩ := exists_moved_of_yieldGroup hyield
    rw [hitems, List.forall_mem_append, List.forall_mem_cons] at hpending
    rw [ih hpending.2.2 h, filter_isValue_moved hpending.1, operands_cons_of_not ht]
  | case7 => cases h

/-- **A group that is found can be reordered**: nothing is lost or added but the parentheses, and
the operands stay in their order. -/
theorem exists_reversePolish_of_firstGroup {g : Grouped} (h : firstGroup tokens = .ok (some g)) :
    ∃ polish, reversePolish g.group = .ok polish ∧ polish.Perm (terms g.group) ∧
      polish.filter isValue = operands g.group := by
  obtain ⟨o, ts, c, -, ho, hc, hbalanced, hall, hgroup, -⟩ := exists_balanced_of_firstGroup h
  rw [hgroup]
  obtain ⟨polish, hpolish, hperm⟩ := exists_reversePolish ho hc hbalanced hall
  have hterms : terms (o :: ts ++ [c]) = terms ts :=
    (terms_parens ho hc ts []).trans (List.append_nil _)
  refine ⟨polish, hpolish, by rwa [hterms], ?_⟩
  exact filter_isValue_of_polishOnto (fun _ hu => absurd hu List.not_mem_nil) hpolish

/-! ### Folding -/

/-- **The first opening parenthesis is never closed**: from it to the end of the list there is
nothing but arithmetic, and the nesting depth does not come back to zero. -/
def Unclosed (tokens : List Token) : Prop :=
  ∃ pre o rest, tokens = pre ++ o :: rest ∧ (∀ t ∈ pre, t.kind ≠ .openParen) ∧
    o.kind = .openParen ∧ (∀ t ∈ o :: rest, t.isArithmetic = true) ∧
    ∀ front, front ≠ [] → front <+: o :: rest → depth front ≠ 0

/-- Behind an opening parenthesis the depth is one. -/
theorem staysOpen_one_iff {o : Token} {rest : List Token} (ho : o.kind = .openParen) :
    StaysOpen 1 rest ↔ ∀ front, front ≠ [] → front <+: o :: rest → depth front ≠ 0 := by
  constructor
  · intro h front hne hfront
    rcases List.prefix_cons_iff.mp hfront with rfl | ⟨front', rfl, hfront'⟩
    · exact absurd rfl hne
    · rw [depth_cons, depth_openParen ho]
      exact h front' hfront'
  · intro h front hfront
    have hdepth := h (o :: front) (List.cons_ne_nil _ _) (List.cons_prefix_cons.mpr ⟨rfl, hfront⟩)
    rwa [depth_cons, depth_openParen ho] at hdepth

theorem firstGroup_append_eq_mismatchedParen_iff {pre rest : List Token} {o : Token}
    (hpre : ∀ t ∈ pre, t.kind ≠ .openParen) (ho : o.kind = .openParen) :
    firstGroup (pre ++ o :: rest) = .error .mismatchedParen ↔
      (∀ t ∈ o :: rest, t.isArithmetic = true) ∧
        ∀ front, front ≠ [] → front <+: o :: rest → depth front ≠ 0 := by
  have hclose := closeGroup_eq_mismatchedParen_iff [o] 0 rest
  have harithmetic : (∀ t ∈ o :: rest, t.isArithmetic = true) ↔ rest.all isArithmetic = true := by
    rw [List.forall_mem_cons, ← List.all_eq_true]
    simp [isArithmetic_of_openParen ho]
  rw [firstGroup_append hpre ho, ← staysOpen_one_iff ho, harithmetic]
  refine Iff.trans ?_ hclose
  cases closeGroup [o] 1 rest <;> simp [Except.map]

/-- The group is not found for want of a closing parenthesis exactly if the first opening one is
never closed. -/
theorem firstGroup_eq_mismatchedParen_iff :
    firstGroup tokens = .error .mismatchedParen ↔ Unclosed tokens := by
  constructor
  · intro h
    by_cases hnone : ∀ t ∈ tokens, t.kind ≠ .openParen
    · rw [firstGroup_eq_none hnone] at h
      cases h
    · obtain ⟨pre, o, rest, rfl, hpre, ho⟩ := exists_first_openParen hnone
      exact ⟨pre, o, rest, rfl, hpre, ho, (firstGroup_append_eq_mismatchedParen_iff hpre ho).mp h⟩
  · rintro ⟨pre, o, rest, rfl, hpre, ho, h⟩
    exact (firstGroup_append_eq_mismatchedParen_iff hpre ho).mpr h

theorem firstGroup_error {fault : Fault} (h : firstGroup tokens = .error fault) :
    fault = .mismatchedParen ∨ fault = .invalidArithmetic := by
  dsimp only [firstGroup] at h
  split at h
  · cases h
  · split at h
    · rename_i hclose
      obtain rfl := Except.error.inj h
      exact closeGroup_error hclose
    · cases h

/-- **Folding fails as the search for the group does, or at the evaluation.** -/
theorem firstGroup_or_invalidArithmetic {fault : Fault} (h : fold tokens = .error fault) :
    firstGroup tokens = .error fault ∨ fault = .invalidArithmetic := by
  cases hgroup : firstGroup tokens with
  | error e =>
    simp only [fold, hgroup] at h
    obtain rfl := Except.error.inj h
    exact .inl rfl
  | ok found =>
    cases found with
    | none =>
      simp only [fold, hgroup] at h
      cases h
    | some g =>
      obtain ⟨o, ts, c, hpre, ho, hc, hbalanced, -, hg, htokens⟩ :=
        exists_balanced_of_firstGroup hgroup
      rw [htokens, hg] at h
      exact .inr (fold_error hpre ho hc hbalanced h)

theorem fold_eq_mismatchedParen_iff :
    fold tokens = .error .mismatchedParen ↔ firstGroup tokens = .error .mismatchedParen := by
  constructor
  · intro h
    exact (firstGroup_or_invalidArithmetic h).resolve_right (by decide)
  · intro h
    simp only [fold, h]

/-- A group is longer than the number that it gives way to. -/
theorem forall_ne_openParen_of_fold_eq_self (h : fold tokens = .ok tokens) :
    ∀ t ∈ tokens, t.kind ≠ .openParen := by
  cases hgroup : firstGroup tokens with
  | error e =>
    simp only [fold, hgroup] at h
    cases h
  | ok found =>
    cases found with
    | none =>
      by_contra hsome
      obtain ⟨pre, o, rest, rfl, hpre, ho⟩ := exists_first_openParen hsome
      rw [firstGroup_append hpre ho] at hgroup
      cases hclose : closeGroup [o] 1 rest <;> rw [hclose] at hgroup <;> cases hgroup
    | some g =>
      obtain ⟨o, ts, c, hpre, ho, hc, hbalanced, -, hg, htokens⟩ :=
        exists_balanced_of_firstGroup hgroup
      rw [hg] at htokens
      rw [htokens] at h
      obtain ⟨-, polish, e, -, -, -, hfolded⟩ := (fold_eq_ok_iff hpre ho hc hbalanced _).mp h
      have hlength := congrArg List.length hfolded
      simp only [List.length_append, List.length_cons, List.length_nil] at hlength
      omega

/-- **All that folding can end with.**  A group that is found can always be reordered.  A
parenthesis is mismatched exactly if the first opening one is never closed, the list stays as it is
exactly if it has no opening parenthesis, and any other failure is invalid arithmetic. -/
theorem fold_outcomes (tokens : List Token) :
    (∀ g, firstGroup tokens = .ok (some g) → tokens = g.before ++ g.group ++ g.after ∧
      ∃ polish, reversePolish g.group = .ok polish ∧ polish.Perm (terms g.group) ∧
        polish.filter isValue = operands g.group) ∧
    (fold tokens = .error .mismatchedParen ↔ Unclosed tokens) ∧
    (fold tokens = .ok tokens ↔ ∀ t ∈ tokens, t.kind ≠ .openParen) ∧
    ∀ fault, fold tokens = .error fault → fault ≠ .mismatchedParen →
      fault = .invalidArithmetic := by
  refine ⟨fun g hg => ⟨?_, exists_reversePolish_of_firstGroup hg⟩, ?_, ?_, ?_⟩
  · obtain ⟨o, ts, c, -, -, -, -, -, -, htokens⟩ := exists_balanced_of_firstGroup hg
    exact htokens
  · rw [fold_eq_mismatchedParen_iff, firstGroup_eq_mismatchedParen_iff]
  · exact ⟨forall_ne_openParen_of_fold_eq_self, fold_eq_self⟩
  · intro fault h hne
    rcases firstGroup_or_invalidArithmetic h with hgroup | rfl
    · exact (firstGroup_error hgroup).resolve_left hne
    · rfl

/-- A group with a group inside it, in front of a parenthesis that is left alone, gives way to its
value.  Two groups are closed and still have none: an operand is missing, or a token has no place in
arithmetic.  In one list a closing parenthesis is missing, and another one has no opening one at
all. -/
theorem fold_outcomes_nested :
    let nested := [ofKind .times, ofKind .openParen, number 2, ofKind .multiply, ofKind .openParen,
      number 3, ofKind .plus, byte 4, ofKind .closeParen, ofKind .minus, number 5,
      ofKind .closeParen, ofKind .openParen]
    let lacking := [ofKind .openParen, number 1, ofKind .plus, ofKind .closeParen]
    let foreign := [ofKind .openParen, number 1, ofKind .hlt, ofKind .closeParen]
    let unclosed := [ofKind .openParen, number 1, ofKind .plus, ofKind .openParen, number 2,
      ofKind .closeParen]
    let closing := [number 1, ofKind .closeParen]
    (∃ g polish, firstGroup nested = .ok (some g) ∧ reversePolish g.group = .ok polish ∧
      polish.Perm (terms g.group) ∧
      polish.filter isValue = [number 2, number 3, number 4, number 5]) ∧
    fold nested = .ok [ofKind .times, number 9, ofKind .openParen] ∧ ¬ Unclosed nested ∧
    fold lacking = .error .invalidArithmetic ∧ ¬ Unclosed lacking ∧
    fold foreign = .error .invalidArithmetic ∧ ¬ Unclosed foreign ∧
    fold unclosed = .error .mismatchedParen ∧ fold closing = .ok closing := by
  intro nested lacking foreign unclosed closing
  have hnested : fold nested = .ok [ofKind .times, number 9, ofKind .openParen] := rfl
  have hclosed (tokens : List Token) (h : fold tokens ≠ .error .mismatchedParen) :
      ¬ Unclosed tokens := fun hopen => h ((fold_outcomes tokens).2.1.mpr hopen)
  have hinvalid (tokens : List Token) (fault : Fault) (h : fold tokens = .error fault)
      (hne : fault ≠ .mismatchedParen) : fold tokens = .error .invalidArithmetic := by
    rw [h, (fold_outcomes tokens).2.2.2 fault h hne]
  refine ⟨?_, hnested, hclosed nested (by rw [hnested]; nofun), hinvalid lacking _ rfl (by decide),
    hclosed lacking (by decide), hinvalid foreign _ rfl (by decide), hclosed foreign (by decide),
    ?_, (fold_outcomes closing).2.2.1.mpr (by decide)⟩
  · obtain ⟨-, polish, hpolish, hperm, hvalues⟩ :=
      (fold_outcomes nested).1 _ (Eq.refl (firstGroup nested))
    exact ⟨_, polish, rfl, hpolish, hperm, hvalues⟩
  · have hopen : ∀ front ∈ unclosed.inits, front ≠ [] → depth front ≠ 0 := by decide
    refine (fold_outcomes unclosed).2.1.mpr ⟨[], _, _, rfl, by decide, rfl, by decide, ?_⟩
    intro front hne hfront
    exact hopen front ((List.mem_inits _ _).mpr hfront) hne

end BootSector.Token
