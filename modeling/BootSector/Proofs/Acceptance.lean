import BootSector.Proofs.Infix

/-!
# Which groups can be folded

A group whose parentheses match is brought into reverse Polish order before anything is checked, and
then only the operands on the stack are counted.  So folding decides whether the *reordered* group
is an expression.  `Postfix e ps` says that `ps` is the expression `e` in reverse Polish order.

* `exists_reversePolish`: reordering a matched group of operands, operators and parentheses never
  fails, and loses and invents nothing;
* `evaluate_eq_ok_iff`: evaluation accepts exactly the reverse Polish forms of expressions;
* `isInfix_iff_writes`: operands and operators that alternate are a way of writing an expression.

`judges_matched` puts them together: a matched group can be folded if and only if it holds nothing
but arithmetic and its reverse Polish form is one of an expression.  Every infix expression is such
a group, but not only these: `(1 2 +)` is one too.
-/

namespace BootSector.Token

/-! ### Infix order -/

/-- **Infix order**: operands and operators alternate, with an operand at either end; an infix
expression in parentheses is an operand. -/
inductive IsInfix : List Token → Prop where
  | operand {t : Token} (ht : t.isValue = true) : IsInfix [t]
  | parens {o c : Token} {ts : List Token} (ho : o.kind = .openParen) (hc : c.kind = .closeParen)
    (h : IsInfix ts) : IsInfix (o :: ts ++ [c])
  | binary {t : Token} {ls rs : List Token} (hl : IsInfix ls) (ht : t.isOperator = true)
    (hr : IsInfix rs) : IsInfix (ls ++ t :: rs)

theorem exists_kind_of_isOperator {t : Token} (h : t.isOperator = true) :
    ∃ op : ArithOp, t.kind = op.kind := by
  unfold isOperator TokenKind.isOperator at h
  split at h
  · exact ⟨.add, ‹_›⟩
  · exact ⟨.sub, ‹_›⟩
  · exact ⟨.mul, ‹_›⟩
  · cases h

theorem isValue_of_isOperator {t : Token} (h : t.isOperator = true) : t.isValue = false := by
  obtain ⟨op, hop⟩ := exists_kind_of_isOperator h
  exact ArithOp.isValue_of_kind hop

theorem isOperator_of_isValue {t : Token} (h : t.isValue = true) : t.isOperator = false := by
  rw [← Bool.not_eq_true]
  intro hop
  rw [isValue_of_isOperator hop] at h
  exact Bool.false_ne_true h

/-- What is written at one level is written at every lower one. -/
theorem writes_mono {n m : Nat} {e : Arith} {ts : List Token} (hnm : n ≤ m) (h : Writes m e ts) :
    Writes n e ts := by
  cases h with
  | operand ht => exact .operand ht
  | parens ho hc h => exact .parens ho hc h
  | binary hm ht hl hr => exact .binary (Nat.le_trans hnm hm) ht hl hr

/-- A written expression can be continued by an operator and a right operand of the operator's
level: `*` takes only the last term of a sum or difference as its left operand. -/
theorem exists_writes_append {op : ArithOp} {left right : Arith} {t : Token} {ls rs : List Token}
    (ht : t.kind = op.kind) (hl : Writes 0 left ls) (hr : Writes (op.binding + 1) right rs) :
    ∃ e, Writes 0 e (ls ++ t :: rs) := by
  by_cases hop : op.binding = 0
  · exact ⟨_, .binary (Nat.zero_le _) ht (hop ▸ hl) hr⟩
  have hop : op.binding = 1 := by
    cases op with
    | add | sub => exact absurd rfl hop
    | mul => rfl
  cases hl with
  | operand hv => exact ⟨_, .binary (Nat.zero_le _) ht (.operand hv) hr⟩
  | parens ho hc h => exact ⟨_, .binary (Nat.zero_le _) ht (.parens ho hc h) hr⟩
  | @binary _ op' left₁ left₂ t' ls₁ ls₂ _ ht' hl₁ hl₂ =>
    by_cases hop' : op'.binding = 0
    · -- the right operand of the sum or difference becomes a product
      have hl₂' : Writes op.binding left₂ ls₂ := writes_mono (by omega) hl₂
      have hproduct : Writes (op'.binding + 1) (.binary op left₂ right) (ls₂ ++ t :: rs) :=
        .binary (by omega) ht hl₂' hr
      refine ⟨.binary op' left₁ (.binary op left₂ right), ?_⟩
      rw [List.append_assoc, List.cons_append]
      exact .binary (Nat.zero_le _) ht' hl₁ hproduct
    · have hproduct : Writes op.binding (.binary op' left₁ left₂) (ls₁ ++ t' :: ls₂) :=
        .binary (by omega) ht' hl₁ hl₂
      exact ⟨_, .binary (Nat.zero_le _) ht hproduct hr⟩

/-- Two written expressions can be joined by any operator. -/
theorem exists_writes_binary {op : ArithOp} {n : Nat} {left right : Arith} {t : Token}
    {ls rs : List Token} (ht : t.kind = op.kind) (hl : Writes 0 left ls) (hr : Writes n right rs) :
    ∃ e, Writes 0 e (ls ++ t :: rs) := by
  -- the right side is taken apart from its end, where its loosest operator stands
  induction hr with
  | operand hv => exact exists_writes_append ht hl (.operand hv)
  | parens ho hc h => exact exists_writes_append ht hl (.parens ho hc h)
  | @binary _ op' right₁ right₂ t' rs₁ rs₂ _ ht' _ hr₂ ih =>
    obtain ⟨e, he⟩ := ih
    have hjoined := exists_writes_append ht' he hr₂
    rwa [List.append_assoc, List.cons_append] at hjoined

theorem isInfix_of_writes {n : Nat} {e : Arith} {ts : List Token} (h : Writes n e ts) :
    IsInfix ts := by
  induction h with
  | operand ht => exact .operand ht
  | parens ho hc h ih => exact .parens ho hc ih
  | binary hn ht hl hr ihl ihr => exact .binary ihl (ArithOp.isOperator_of_kind ht) ihr

/-- **Infix order is the order in which expressions are written.** -/
theorem isInfix_iff_writes {ts : List Token} : IsInfix ts ↔ ∃ e, Writes 0 e ts := by
  refine ⟨fun h => ?_, fun ⟨_, h⟩ => isInfix_of_writes h⟩
  induction h with
  | operand ht => exact ⟨_, .operand ht⟩
  | parens ho hc h ih =>
    obtain ⟨e, he⟩ := ih
    exact ⟨e, .parens ho hc he⟩
  | binary hl ht hr ihl ihr =>
    obtain ⟨left, hleft⟩ := ihl
    obtain ⟨right, hright⟩ := ihr
    obtain ⟨op, hop⟩ := exists_kind_of_isOperator ht
    exact exists_writes_binary hop hleft hright

/-- Infix order does not end with an operator. -/
theorem exists_of_isInfix {ts : List Token} (h : IsInfix ts) :
    ∃ init t, ts = init ++ [t] ∧ t.isOperator = false := by
  induction h with
  | @operand t ht => exact ⟨[], t, rfl, isOperator_of_isValue ht⟩
  | @parens o c ts ho hc h ih => exact ⟨o :: ts, c, rfl, by rw [isOperator, hc]; rfl⟩
  | @binary u ls rs hl hu hr ihl ihr =>
    obtain ⟨init, t, rfl, ht⟩ := ihr
    exact ⟨ls ++ u :: init, t, by simp, ht⟩

/-! ### Reordering -/

/-- The operands of a list, as numbers, and its operators. -/
def terms (ts : List Token) : List Token :=
  ts.filterMap fun t =>
    if t.isValue then some (number t.value) else if t.isOperator then some t else none

theorem terms_append (ts us : List Token) : terms (ts ++ us) = terms ts ++ terms us :=
  List.filterMap_append

theorem terms_cons_of_isValue {t : Token} (ht : t.isValue = true) (ts : List Token) :
    terms (t :: ts) = number t.value :: terms ts := by
  simp [terms, ht]

theorem terms_cons_of_isOperator {t : Token} (ht : t.isOperator = true) (ts : List Token) :
    terms (t :: ts) = t :: terms ts := by
  simp [terms, ht, isValue_of_isOperator ht]

theorem terms_cons_of_not {t : Token} (hv : t.isValue = false) (ho : t.isOperator = false)
    (ts : List Token) : terms (t :: ts) = terms ts := by
  simp [terms, hv, ho]

/-- Parentheses are no terms. -/
theorem terms_parens {o c : Token} (ho : o.kind = .openParen) (hc : c.kind = .closeParen)
    (ts us : List Token) : terms (o :: ts ++ c :: us) = terms ts ++ terms us := by
  rw [List.cons_append, terms_cons_of_not (isValue_of_openParen ho) (isOperator_of_openParen ho),
    terms_append, terms_cons_of_not (isValue_of_closeParen hc) (isOperator_of_closeParen hc)]

/-- Counting the terms counts the list, if operands count as numbers do and parentheses do not. -/
theorem countP_terms {p : Token → Bool}
    (hvalue : ∀ t, t.isValue = true → p (number t.value) = p t)
    (hother : ∀ t, t.isValue = false → t.isOperator = false → p t = false) (ts : List Token) :
    (terms ts).countP p = ts.countP p := by
  induction ts with
  | nil => rfl
  | cons t ts ih =>
    by_cases hv : t.isValue = true
    · rw [terms_cons_of_isValue hv, List.countP_cons, List.countP_cons, hvalue t hv, ih]
    · by_cases ho : t.isOperator = true
      · rw [terms_cons_of_isOperator ho, List.countP_cons, List.countP_cons, ih]
      · rw [Bool.not_eq_true] at hv ho
        rw [terms_cons_of_not hv ho, List.countP_cons, hother t hv ho, ih]
        rfl

theorem countP_isValue_terms (ts : List Token) :
    (terms ts).countP isValue = ts.countP isValue :=
  countP_terms (fun _ ht => ht.symm) (fun _ hv _ => hv) ts

theorem countP_isOperator_terms (ts : List Token) :
    (terms ts).countP isOperator = ts.countP isOperator :=
  countP_terms (fun _ ht => (isOperator_of_isValue ht).symm) (fun _ _ ho => ho) ts

/-- An operator moves some of the waiting operators from the top, and nothing below them. -/
theorem exists_yieldTo {waiting pending : List Token} (t : Token) (output : List Token)
    (hw : ∀ u ∈ waiting, u.isOperator = true) (hp : Stops 0 pending) :
    ∃ moved kept, waiting = moved ++ kept ∧
      yieldTo t output (waiting ++ pending) = (moved.reverse ++ output, kept ++ pending) := by
  induction waiting generalizing output with
  | nil =>
    have hstop : Stops (precedence t) pending := stops_mono (Nat.zero_le _) hp
    exact ⟨[], [], rfl, yieldTo_waiting output (by simp) hstop⟩
  | cons u waiting ih =>
    by_cases hu : precedence t ≤ precedence u
    · obtain ⟨moved, kept, rfl, hyield⟩ :=
        ih (u :: output) fun v hv => hw v (List.mem_cons_of_mem u hv)
      refine ⟨u :: moved, kept, rfl, ?_⟩
      rw [List.cons_append, yieldTo, if_pos (by simp [hw u List.mem_cons_self, hu]), hyield]
      simp
    · refine ⟨[], u :: waiting, rfl, ?_⟩
      rw [List.cons_append, yieldTo, if_neg (by simp [hu])]
      rfl

/-- At the end all waiting operators are moved. -/
theorem yieldAll_waiting {waiting : List Token} (output : List Token)
    (hw : ∀ u ∈ waiting, u.isOperator = true) :
    yieldAll output waiting = .ok (output.reverse ++ waiting) := by
  induction waiting generalizing output with
  | nil => rw [yieldAll, List.append_nil]
  | cons u waiting ih =>
    rw [yieldAll, if_pos (hw u List.mem_cons_self),
      ih _ fun v hv => hw v (List.mem_cons_of_mem u hv)]
    simp

/-- **Reading a balanced list of arithmetic never fails.**  Above what was pending, only operators
wait before and after it; output and waiting operators together gain the terms of the list. -/
theorem exists_polishOnto {ts : List Token} (h : Balanced ts) (ha : ts.all isArithmetic = true)
    (output waiting pending rest : List Token)
    (hw : ∀ u ∈ waiting, u.isOperator = true) (hp : Stops 0 pending) :
    ∃ output' waiting', (∀ u ∈ waiting', u.isOperator = true) ∧
      (output' ++ waiting').Perm (output ++ waiting ++ terms ts) ∧
      polishOnto output ⟨waiting ++ pending⟩ (ts ++ rest) =
        polishOnto output' ⟨waiting' ++ pending⟩ rest := by
  induction h generalizing output waiting pending rest with
  | nil => exact ⟨output, waiting, hw, by simp [terms], rfl⟩
  | @token t ts ho hc h ih =>
    rw [List.all_cons, Bool.and_eq_true, isArithmetic_of_ne ho hc] at ha
    by_cases hv : t.isValue = true
    · obtain ⟨output', waiting', hw', hperm, hread⟩ :=
        ih ha.2 (number t.value :: output) waiting pending rest hw hp
      refine ⟨output', waiting', hw', ?_, ?_⟩
      · rw [terms_cons_of_isValue hv]
        exact hperm.trans List.perm_middle.symm
      · rw [List.cons_append, polishOnto, if_pos hv, hread]
    · have hop : t.isOperator = true := by simpa [hv] using ha.1
      obtain ⟨moved, kept, rfl, hyield⟩ := exists_yieldTo t output hw hp
      have hkept : ∀ u ∈ t :: kept, u.isOperator = true := by
        intro u hu
        rcases List.mem_cons.mp hu with rfl | hu
        · exact hop
        · exact hw u (List.mem_append_right moved hu)
      obtain ⟨output', waiting', hw', hperm, hread⟩ :=
        ih ha.2 (moved.reverse ++ output) (t :: kept) pending rest hkept hp
      refine ⟨output', waiting', hw', ?_, ?_⟩
      · rw [terms_cons_of_isOperator hop, List.perm_iff_count]
        intro u
        have hcount := hperm.count_eq u
        simp only [List.count_append, List.count_cons, List.count_reverse] at hcount ⊢
        omega
      · rw [List.cons_append, polishOnto, if_neg hv, if_pos hop]
        simp only [hyield]
        exact hread
  | @parens o c ts us ho hc h h' ih ih' =>
    have hall : ts.all isArithmetic = true ∧ us.all isArithmetic = true := by
      simpa [List.all_append, isArithmetic_of_openParen ho, isArithmetic_of_closeParen hc] using ha
    -- inside the parentheses, the opening one lies below all that waits
    obtain ⟨inside, waiting₁, hw₁, hperm₁, hread₁⟩ :=
      ih hall.1 output [] (o :: (waiting ++ pending)) (c :: (us ++ rest)) (by simp)
        (stops_openParen ho 0 (waiting ++ pending))
    obtain ⟨output', waiting', hw', hperm', hread'⟩ :=
      ih' hall.2 (waiting₁.reverse ++ inside) waiting pending rest hw hp
    refine ⟨output', waiting', hw', ?_, ?_⟩
    · rw [terms_parens ho hc, List.perm_iff_count]
      intro u
      have hcount₁ := hperm₁.count_eq u
      have hcount' := hperm'.count_eq u
      simp only [List.count_append, List.count_reverse, List.count_nil] at hcount₁ hcount' ⊢
      omega
    · calc polishOnto output ⟨waiting ++ pending⟩ (o :: ts ++ c :: us ++ rest)
          = polishOnto output ⟨waiting ++ pending⟩ (o :: (ts ++ c :: (us ++ rest))) := by simp
        _ = polishOnto output ⟨o :: (waiting ++ pending)⟩ (ts ++ c :: (us ++ rest)) :=
            polishOnto_openParen ho ..
        _ = polishOnto inside ⟨waiting₁ ++ o :: (waiting ++ pending)⟩ (c :: (us ++ rest)) := hread₁
        _ = polishOnto (waiting₁.reverse ++ inside) ⟨waiting ++ pending⟩ (us ++ rest) :=
            polishOnto_closeParen ho hc hw₁ ..
        _ = polishOnto output' ⟨waiting' ++ pending⟩ rest := hread'

/-- **Reordering a matched group of arithmetic never fails**, and keeps its operands and its
operators. -/
theorem exists_reversePolish {ts : List Token} {o c : Token} (ho : o.kind = .openParen)
    (hc : c.kind = .closeParen) (h : Balanced ts) (ha : ts.all isArithmetic = true) :
    ∃ polish, reversePolish (o :: ts ++ [c]) = .ok polish ∧ polish.Perm (terms ts) := by
  have hgroup : Balanced (o :: ts ++ [c]) := .parens ho hc h .nil
  have hall : (o :: ts ++ [c]).all isArithmetic = true := by
    simp [List.all_append, isArithmetic_of_openParen ho, isArithmetic_of_closeParen hc, ha]
  obtain ⟨output, waiting, hw, hperm, hread⟩ :=
    exists_polishOnto hgroup hall [] [] [] [] (by simp) (by simp [Stops])
  have hterms : terms (o :: ts ++ [c]) = terms ts :=
    (terms_parens ho hc ts []).trans (List.append_nil _)
  refine ⟨output.reverse ++ waiting, ?_, ?_⟩
  · rw [List.append_nil, List.append_nil, List.append_nil] at hread
    rw [reversePolish, Stack.empty, hread, polishOnto, yieldAll_waiting output hw]
  · rw [hterms] at hperm
    exact (output.reverse_perm.append_right waiting).trans hperm

/-! ### Evaluation -/

/-- **Reverse Polish order**: an operator stands behind its two operands. -/
inductive Postfix : Arith → List Token → Prop where
  | operand {t : Token} (ht : t.isValue = true) : Postfix (.operand t.value) [t]
  | binary {op : ArithOp} {left right : Arith} {t : Token} {ps qs : List Token}
    (ht : t.kind = op.kind) (hl : Postfix left ps) (hr : Postfix right qs) :
    Postfix (.binary op left right) (ps ++ qs ++ [t])

theorem evaluates_of_postfix {e : Arith} {ps : List Token} (h : Postfix e ps) :
    Evaluates ps (Int32.ofInt e.value) := by
  induction h with
  | operand ht =>
    rw [Arith.value, Int32.ofInt_toInt]
    exact evaluates_operand ht
  | binary ht hl hr ihl ihr => exact evaluates_binary ht ihl ihr

/-- There is one more operand than there are operators. -/
theorem countP_of_postfix {e : Arith} {ps : List Token} (h : Postfix e ps) :
    ps.countP isValue = ps.countP isOperator + 1 := by
  induction h with
  | @operand t ht => simp [ht, isOperator_of_isValue ht]
  | @binary op left right t ps qs ht hl hr ihl ihr =>
    simp only [List.countP_append, List.countP_singleton, ArithOp.isValue_of_kind ht,
      ArithOp.isOperator_of_kind ht, Bool.false_eq_true, if_false, if_true]
    omega

/-- The list consists of expressions in reverse Polish order, one for each operand of the stack;
the top one is the last. -/
inductive Operands : List Int32 → List Token → Prop where
  | nil : Operands [] []
  | push {vs : List Int32} {e : Arith} {ps qs : List Token} (h : Operands vs ps)
    (hq : Postfix e qs) : Operands (Int32.ofInt e.value :: vs) (ps ++ qs)

theorem exists_kind_of_applied? {kind : TokenKind} {x y v : Int32}
    (h : applied? kind x y = some v) : ∃ op : ArithOp, kind = op.kind := by
  unfold applied? at h
  split at h
  · exact ⟨.add, rfl⟩
  · exact ⟨.sub, rfl⟩
  · exact ⟨.mul, rfl⟩
  · cases h

/-- **Every operand on the stack is the value of an expression that was read.** -/
theorem operands_of_evaluateOnto {operands result : Stack Int32} {read ps : List Token}
    (h : evaluateOnto operands ps = .ok result) (hread : Operands operands.items read) :
    Operands result.items (read ++ ps) := by
  fun_induction evaluateOnto operands ps generalizing read with
  | case1 operands =>
    obtain rfl := Except.ok.inj h
    rwa [List.append_nil]
  | case2 operands t rest ht ih =>
    have hpush : Operands (operands.push t.value).items (read ++ [t]) := by
      have hvalue : Int32.ofInt (Arith.operand t.value).value = t.value := Int32.ofInt_toInt _
      have hoperand := Operands.push hread (Postfix.operand ht)
      rwa [hvalue] at hoperand
    have hrest := ih h hpush
    rwa [List.append_assoc] at hrest
  | case3 operands t rest ht right left below hitems v happlied ih =>
    rw [hitems] at hread
    obtain ⟨op, hop⟩ := exists_kind_of_applied? happlied
    cases hread with
    | @push _ r _ qs hbelow hq =>
    cases hbelow with
    | @push _ l base ps hbase hp =>
      rw [hop, ArithOp.applied?_kind] at happlied
      obtain rfl := Option.some.inj happlied
      have hrest := ih h (.push hbase (.binary hop hp hq))
      simpa only [List.append_assoc, List.singleton_append] using hrest
  | case4 => cases h
  | case5 => cases h

/-- **Evaluation accepts exactly the reverse Polish forms of expressions.** -/
theorem evaluate_eq_ok_iff {ps : List Token} {v : Int32} :
    evaluate ps = .ok v ↔ ∃ e, Postfix e ps ∧ v = Int32.ofInt e.value := by
  constructor
  · intro h
    unfold evaluate at h
    split at h
    · cases h
    · rename_i result hresult
      have hoperands := operands_of_evaluateOnto hresult .nil
      split at h
      · rename_i w hitems
        obtain rfl := Except.ok.inj h
        rw [hitems, List.nil_append] at hoperands
        -- a single operand: nothing is read before its expression
        cases hoperands with
        | @push _ e base qs hbase hq =>
          cases hbase
          exact ⟨e, hq, rfl⟩
      · cases h
  · rintro ⟨e, he, rfl⟩
    have hstack := evaluates_of_postfix he Stack.empty []
    rw [List.append_nil, evaluateOnto] at hstack
    rw [evaluate, hstack]
    rfl

theorem evaluateOnto_error {operands : Stack Int32} {ps : List Token} {fault : Fault}
    (h : evaluateOnto operands ps = .error fault) : fault = .invalidArithmetic := by
  fun_induction evaluateOnto operands ps with
  | case1 => cases h
  | case2 operands t rest ht ih => exact ih h
  | case3 operands t rest ht right left below hitems v happlied ih => exact ih h
  | case4 | case5 => exact (Except.error.inj h).symm

theorem evaluate_error {ps : List Token} {fault : Fault} (h : evaluate ps = .error fault) :
    fault = .invalidArithmetic := by
  unfold evaluate at h
  split at h
  · rename_i e he
    obtain rfl := Except.error.inj h
    exact evaluateOnto_error he
  · split at h
    · cases h
    · exact (Except.error.inj h).symm

/-! ### Folding -/

variable {pre ts post polish : List Token} {o c : Token}

theorem fold_of_not_arithmetic (hpre : ∀ t ∈ pre, t.kind ≠ .openParen) (ho : o.kind = .openParen)
    (hc : c.kind = .closeParen) (h : Balanced ts) (ha : ¬ ts.all isArithmetic = true) :
    fold (pre ++ (o :: ts ++ [c]) ++ post) = .error .invalidArithmetic := by
  simp only [fold, firstGroup_balanced hpre ho hc h, if_neg ha]

theorem fold_of_reversePolish (hpre : ∀ t ∈ pre, t.kind ≠ .openParen) (ho : o.kind = .openParen)
    (hc : c.kind = .closeParen) (h : Balanced ts) (ha : ts.all isArithmetic = true)
    (hpolish : reversePolish (o :: ts ++ [c]) = .ok polish) :
    fold (pre ++ (o :: ts ++ [c]) ++ post) =
      match evaluate polish with
      | .error e => .error e
      | .ok v => .ok (pre ++ [number v] ++ post) := by
  simp only [fold, firstGroup_balanced hpre ho hc h, if_pos ha, hpolish]
  cases evaluate polish <;> simp

/-- **What folding decides about the group** `o :: ts ++ [c]` between `pre` and `post`. -/
structure Judges (pre ts post : List Token) (o c : Token) : Prop where
  /-- The group is accepted if and only if it is arithmetic throughout and its operands and
  operators, brought into reverse Polish order, are an expression; it gives way to its value. -/
  accepted : ∀ folded, fold (pre ++ (o :: ts ++ [c]) ++ post) = .ok folded ↔
    ts.all isArithmetic = true ∧
      ∃ polish e, reversePolish (o :: ts ++ [c]) = .ok polish ∧ polish.Perm (terms ts) ∧
        Postfix e polish ∧ folded = pre ++ [number (Int32.ofInt e.value)] ++ post
  /-- An accepted group has one more operand than it has operators. -/
  counted : ∀ folded, fold (pre ++ (o :: ts ++ [c]) ++ post) = .ok folded →
    ts.countP isValue = ts.countP isOperator + 1
  /-- Every group in infix order is accepted. -/
  written : IsInfix ts → ∃ folded, fold (pre ++ (o :: ts ++ [c]) ++ post) = .ok folded
  /-- Every other group is invalid arithmetic. -/
  rejected : (∀ folded, fold (pre ++ (o :: ts ++ [c]) ++ post) ≠ .ok folded) →
    fold (pre ++ (o :: ts ++ [c]) ++ post) = .error .invalidArithmetic

theorem fold_eq_ok_iff (hpre : ∀ t ∈ pre, t.kind ≠ .openParen) (ho : o.kind = .openParen)
    (hc : c.kind = .closeParen) (h : Balanced ts) (folded : List Token) :
    fold (pre ++ (o :: ts ++ [c]) ++ post) = .ok folded ↔
      ts.all isArithmetic = true ∧
        ∃ polish e, reversePolish (o :: ts ++ [c]) = .ok polish ∧ polish.Perm (terms ts) ∧
          Postfix e polish ∧ folded = pre ++ [number (Int32.ofInt e.value)] ++ post := by
  constructor
  · intro hfold
    by_cases ha : ts.all isArithmetic = true
    · obtain ⟨polish, hpolish, hperm⟩ := exists_reversePolish ho hc h ha
      rw [fold_of_reversePolish hpre ho hc h ha hpolish] at hfold
      split at hfold
      · cases hfold
      · rename_i v hv
        obtain ⟨e, he, rfl⟩ := evaluate_eq_ok_iff.mp hv
        exact ⟨ha, polish, e, hpolish, hperm, he, (Except.ok.inj hfold).symm⟩
    · rw [fold_of_not_arithmetic hpre ho hc h ha] at hfold
      cases hfold
  · rintro ⟨ha, polish, e, hpolish, -, he, rfl⟩
    have hv : evaluate polish = .ok (Int32.ofInt e.value) := evaluate_eq_ok_iff.mpr ⟨e, he, rfl⟩
    rw [fold_of_reversePolish hpre ho hc h ha hpolish, hv]

theorem fold_error (hpre : ∀ t ∈ pre, t.kind ≠ .openParen) (ho : o.kind = .openParen)
    (hc : c.kind = .closeParen) (h : Balanced ts) {fault : Fault}
    (hfold : fold (pre ++ (o :: ts ++ [c]) ++ post) = .error fault) :
    fault = .invalidArithmetic := by
  by_cases ha : ts.all isArithmetic = true
  · obtain ⟨polish, hpolish, -⟩ := exists_reversePolish ho hc h ha
    rw [fold_of_reversePolish hpre ho hc h ha hpolish] at hfold
    split at hfold
    · rename_i e he
      obtain rfl := Except.error.inj hfold
      exact evaluate_error he
    · cases hfold
  · rw [fold_of_not_arithmetic hpre ho hc h ha] at hfold
    exact (Except.error.inj hfold).symm

/-- **Folding judges the reordered group.**  When the first opening parenthesis of a list has a
partner, the group between them is folded exactly if its reverse Polish form is an expression. -/
theorem judges_matched (pre ts post : List Token) (o c : Token)
    (hpre : ∀ t ∈ pre, t.kind ≠ .openParen) (ho : o.kind = .openParen)
    (hc : c.kind = .closeParen) (h : Balanced ts) : Judges pre ts post o c where
  accepted := fold_eq_ok_iff hpre ho hc h
  counted := by
    intro folded hfold
    obtain ⟨-, polish, e, -, hperm, he, -⟩ := (fold_eq_ok_iff hpre ho hc h folded).mp hfold
    have hcount := countP_of_postfix he
    rwa [hperm.countP_eq, hperm.countP_eq, countP_isValue_terms, countP_isOperator_terms] at hcount
  written := by
    intro hinfix
    obtain ⟨e, he⟩ := isInfix_iff_writes.mp hinfix
    obtain ⟨polish, hpolish, hv⟩ := evaluate_reversePolish_writes ho hc he
    refine ⟨pre ++ [number (Int32.ofInt e.value)] ++ post, ?_⟩
    rw [fold_of_reversePolish hpre ho hc h (all_isArithmetic_of_writes he) hpolish, hv]
  rejected := by
    intro hnot
    cases hfold : fold (pre ++ (o :: ts ++ [c]) ++ post) with
    | ok folded => exact absurd hfold (hnot folded)
    | error fault => rw [fold_error hpre ho hc h hfold]

/-- A sum with an operand in parentheses is folded between other tokens; two operands without an
operator are not. -/
theorem judges_sum_and_pair :
    (∃ folded, fold [ofKind .times, ofKind .openParen, number 2, ofKind .plus, ofKind .openParen,
        byte 3, ofKind .closeParen, ofKind .closeParen, byte 0] = .ok folded) ∧
    fold [ofKind .openParen, number 1, number 2, ofKind .closeParen] =
      .error .invalidArithmetic := by
  let sum : List Token :=
    [number 2] ++ ofKind .plus :: (ofKind .openParen :: [byte 3] ++ [ofKind .closeParen])
  have hsum : IsInfix sum :=
    .binary (.operand (t := number 2) rfl) rfl (.parens rfl rfl (.operand (t := byte 3) rfl))
  obtain ⟨e, he⟩ := isInfix_iff_writes.mp hsum
  have hjudges := judges_matched [ofKind .times] sum [byte 0] (ofKind .openParen)
    (ofKind .closeParen) (by decide) rfl rfl (balanced_of_writes he)
  have hpair : Balanced [number 1, number 2] :=
    .token (by decide) (by decide) (.token (by decide) (by decide) .nil)
  have hrejects := judges_matched [] [number 1, number 2] [] (ofKind .openParen)
    (ofKind .closeParen) (by decide) rfl rfl hpair
  refine ⟨hjudges.written hsum, hrejects.rejected ?_⟩
  intro folded hfold
  exact absurd (hrejects.counted folded hfold) (by decide)

/-- A group in reverse Polish order is folded, although it is not in infix order. -/
theorem fold_one_two_plus :
    Balanced [number 1, number 2, ofKind .plus] ∧
    fold [ofKind .openParen, number 1, number 2, ofKind .plus, ofKind .closeParen] =
      .ok [number 3] ∧
    ¬ IsInfix [number 1, number 2, ofKind .plus] := by
  refine ⟨?_, rfl, fun hinfix => ?_⟩
  · exact .token (by decide) (by decide)
      (.token (by decide) (by decide) (.token (by decide) (by decide) .nil))
  · obtain ⟨init, t, hlist, ht⟩ := exists_of_isInfix hinfix
    have hlast : [number 1, number 2, ofKind .plus].getLast? = some t := by
      rw [hlist, List.getLast?_concat]
    obtain rfl := Option.some.inj hlast
    exact absurd ht (by decide)

end BootSector.Token
