import BootSector.Proofs.Groups

/-!
# Folding is arithmetic

An arithmetic expression is a tree over signed 32-bit operands; its value is computed in the
integers.  `Writes n e ts` says that the tokens `ts` are a way of writing `e` in infix order: `*`
binds tighter than `+` and `-`, all three bind to the left, and any part may stand in parentheses.

`fold_writes`: folding replaces a written group by the value of its tree, reduced to 32 bits.  The
proof follows the stages of `fold`:

* `firstGroup_writes`: the parentheses of a written expression match, so the group ends at the
  parenthesis that closes it;
* `polishes_of_writes`: reading a written expression appends its reverse Polish form to the output,
  except for some operators that still wait on the stack.  The waiting operators bind at least as
  tightly as the level at which the expression is written, and so the next operator of that level
  moves all of them and nothing below them;
* `evaluates_binary`: what has been moved and what waits evaluate together to the value of the tree.
-/

namespace BootSector

/-! ### Expressions -/

/-- A binary operator. -/
inductive ArithOp where
  | add
  | sub
  | mul
  deriving DecidableEq, Repr

namespace ArithOp

/-- The token kind of an operator. -/
def kind : ArithOp → TokenKind
  | add => .plus
  | sub => .minus
  | mul => .multiply

/-- How tightly an operator binds. -/
def binding : ArithOp → Nat
  | add | sub => 0
  | mul => 1

/-- The operation in the integers. -/
def apply : ArithOp → Int → Int → Int
  | add, x, y => x + y
  | sub, x, y => x - y
  | mul, x, y => x * y

theorem isOperator_of_kind {t : Token} {op : ArithOp} (h : t.kind = op.kind) :
    t.isOperator = true := by
  rw [Token.isOperator, h]
  cases op <;> rfl

theorem isValue_of_kind {t : Token} {op : ArithOp} (h : t.kind = op.kind) :
    t.isValue = false := by
  rw [Token.isValue, h]
  cases op <;> rfl

theorem precedence_of_kind {t : Token} {op : ArithOp} (h : t.kind = op.kind) :
    Token.precedence t = op.binding := by
  rw [Token.precedence, h]
  cases op <;> rfl

/-- Arithmetic on words is arithmetic in the integers, reduced to 32 bits. -/
theorem applied?_kind (op : ArithOp) (x y : Int) :
    Token.applied? op.kind (Int32.ofInt x) (Int32.ofInt y) = some (Int32.ofInt (op.apply x y)) := by
  cases op with
  | add => exact congrArg some (Int32.ofInt_add x y).symm
  | sub => exact congrArg some (Int32.ofInt_sub x y).symm
  | mul => exact congrArg some (Int32.ofInt_mul x y).symm

end ArithOp

/-- **An arithmetic expression** over signed 32-bit operands. -/
inductive Arith where
  | operand (value : Int32)
  | binary (op : ArithOp) (left right : Arith)
  deriving DecidableEq, Repr

/-- **The value of an expression**, in the integers. -/
def Arith.value : Arith → Int
  | operand v => v.toInt
  | binary op left right => op.apply left.value right.value

namespace Token

/-- **The ways of writing an expression.**  In `Writes n e ts` all operators of `ts` outside
parentheses bind at least as tightly as `n`.  The left operand of an operator may hold operators
that bind as tightly as it does; its right operand may not. -/
inductive Writes : Nat → Arith → List Token → Prop where
  | operand {n : Nat} {t : Token} (ht : t.isValue = true) : Writes n (.operand t.value) [t]
  | parens {n : Nat} {e : Arith} {o c : Token} {ts : List Token} (ho : o.kind = .openParen)
    (hc : c.kind = .closeParen) (h : Writes 0 e ts) : Writes n e (o :: ts ++ [c])
  | binary {n : Nat} {op : ArithOp} {left right : Arith} {t : Token} {ls rs : List Token}
    (hn : n ≤ op.binding) (ht : t.kind = op.kind) (hl : Writes op.binding left ls)
    (hr : Writes (op.binding + 1) right rs) : Writes n (.binary op left right) (ls ++ t :: rs)

/-! ### Kinds of tokens -/

theorem kind_ne_openParen_of_isValue {t : Token} (h : t.isValue = true) :
    t.kind ≠ .openParen := by
  intro hk
  rw [isValue, hk] at h
  cases h

theorem kind_ne_closeParen_of_isValue {t : Token} (h : t.isValue = true) :
    t.kind ≠ .closeParen := by
  intro hk
  rw [isValue, hk] at h
  cases h

theorem isValue_of_openParen {t : Token} (h : t.kind = .openParen) : t.isValue = false := by
  rw [isValue, h]
  rfl

theorem isOperator_of_openParen {t : Token} (h : t.kind = .openParen) : t.isOperator = false := by
  rw [isOperator, h]
  rfl

theorem isValue_of_closeParen {t : Token} (h : t.kind = .closeParen) : t.isValue = false := by
  rw [isValue, h]
  rfl

theorem isOperator_of_closeParen {t : Token} (h : t.kind = .closeParen) :
    t.isOperator = false := by
  rw [isOperator, h]
  rfl

/-! ### The group -/

/-- A written expression closes the parentheses that it opens. -/
theorem balanced_of_writes {n : Nat} {e : Arith} {ts : List Token} (h : Writes n e ts) :
    Balanced ts := by
  induction h with
  | operand ht =>
    exact .token (kind_ne_openParen_of_isValue ht) (kind_ne_closeParen_of_isValue ht) .nil
  | parens ho hc h ih => exact .parens ho hc ih .nil
  | @binary n op left right t ls rs hn ht hl hr ihl ihr =>
    have ho : t.kind ≠ .openParen := by rw [ht]; cases op <;> decide
    have hc : t.kind ≠ .closeParen := by rw [ht]; cases op <;> decide
    exact ihl.append (.token ho hc ihr)

theorem all_isArithmetic_of_writes {n : Nat} {e : Arith} {ts : List Token} (h : Writes n e ts) :
    ts.all isArithmetic = true := by
  induction h with
  | operand ht => simp [isArithmetic, ht]
  | parens ho hc h ih =>
    simp [isArithmetic_of_openParen ho, isArithmetic_of_closeParen hc, List.all_append, ih]
  | binary hn ht hl hr ihl ihr =>
    simp [isArithmetic, ArithOp.isOperator_of_kind ht, List.all_append, ihl, ihr]

/-- The first group of a list, when it is a written expression. -/
theorem firstGroup_writes {e : Arith} {pre ts post : List Token} {o c : Token}
    (hpre : ∀ t ∈ pre, t.kind ≠ .openParen) (ho : o.kind = .openParen) (hc : c.kind = .closeParen)
    (h : Writes 0 e ts) :
    firstGroup (pre ++ (o :: ts ++ [c]) ++ post) = .ok (some ⟨pre, o :: ts ++ [c], post⟩) := by
  rw [firstGroup_balanced hpre ho hc (balanced_of_writes h),
    if_pos (all_isArithmetic_of_writes h)]

/-! ### Evaluation in reverse Polish order -/

/-- The list `ps` leaves the value `v` on the stack of operands, whatever is below and behind. -/
def Evaluates (ps : List Token) (v : Int32) : Prop :=
  ∀ (operands : Stack Int32) (rest : List Token),
    evaluateOnto operands (ps ++ rest) = evaluateOnto (operands.push v) rest

theorem evaluates_operand {t : Token} (ht : t.isValue = true) : Evaluates [t] t.value := by
  intro operands rest
  rw [List.singleton_append, evaluateOnto, if_pos ht]

/-- Two lists that give the operands, and then the operator, give the result. -/
theorem evaluates_binary {ps qs : List Token} {x y : Int} {op : ArithOp} {t : Token}
    (ht : t.kind = op.kind) (hp : Evaluates ps (Int32.ofInt x))
    (hq : Evaluates qs (Int32.ofInt y)) :
    Evaluates (ps ++ qs ++ [t]) (Int32.ofInt (op.apply x y)) := by
  intro operands rest
  rw [List.append_assoc, List.append_assoc, hp, hq, List.singleton_append, evaluateOnto,
    ArithOp.isValue_of_kind ht, if_neg Bool.false_ne_true]
  simp only [Stack.push, ht, ArithOp.applied?_kind]

/-! ### Reverse Polish order -/

/-- The stack holds no operator on top that binds at least as tightly as `n`. -/
def Stops (n : Nat) (pending : List Token) : Prop :=
  ∀ t ∈ pending.head?, ¬ (t.isOperator = true ∧ n ≤ precedence t)

/-- **What reading `ts` does to output and stack.**  It appends `done` to the output and leaves the
operators `waiting` on the stack, the last one on top; all of them bind at least as tightly as `n`.
Moved behind `done`, they complete a list in reverse Polish order that evaluates to `v`. -/
def Polishes (n : Nat) (ts : List Token) (v : Int32) : Prop :=
  ∃ done waiting : List Token,
    (∀ t ∈ waiting, t.isOperator = true ∧ n ≤ precedence t) ∧
    Evaluates (done ++ waiting) v ∧
    ∀ output pending rest, Stops n pending →
      polishOnto output ⟨pending⟩ (ts ++ rest) =
        polishOnto (done.reverse ++ output) ⟨waiting ++ pending⟩ rest

theorem stops_mono {n m : Nat} {pending : List Token} (hnm : n ≤ m) (h : Stops n pending) :
    Stops m pending :=
  fun t ht htop => h t ht ⟨htop.1, Nat.le_trans hnm htop.2⟩

/-- An operator moves all waiting operators of its level, and nothing below them. -/
theorem yieldTo_waiting {t : Token} {waiting pending : List Token} (output : List Token)
    (hw : ∀ u ∈ waiting, u.isOperator = true ∧ precedence t ≤ precedence u)
    (hp : Stops (precedence t) pending) :
    yieldTo t output (waiting ++ pending) = (waiting.reverse ++ output, pending) := by
  induction waiting generalizing output with
  | nil =>
    cases pending with
    | nil => rfl
    | cons top rest =>
      have htop : ¬ (top.isOperator && decide (precedence t ≤ precedence top)) = true := by
        rw [Bool.and_eq_true, decide_eq_true_eq]
        exact hp top rfl
      rw [List.nil_append, yieldTo, if_neg htop]
      rfl
  | cons u waiting ih =>
    have hu : (u.isOperator && decide (precedence t ≤ precedence u)) = true := by
      rw [Bool.and_eq_true, decide_eq_true_eq]
      exact hw u List.mem_cons_self
    rw [List.cons_append, yieldTo, if_pos hu, ih _ fun v hv => hw v (List.mem_cons_of_mem u hv)]
    simp

/-- A closing parenthesis moves all waiting operators and drops the opening one below them. -/
theorem yieldGroup_waiting {o : Token} {waiting : List Token} (output pending : List Token)
    (hw : ∀ u ∈ waiting, u.isOperator = true) (ho : o.kind = .openParen) :
    yieldGroup output (waiting ++ o :: pending) = .ok (waiting.reverse ++ output, pending) := by
  induction waiting generalizing output with
  | nil =>
    rw [List.nil_append, yieldGroup, if_pos ho]
    rfl
  | cons u waiting ih =>
    have hu : u.kind ≠ .openParen := by
      intro hk
      have := hw u List.mem_cons_self
      rw [isOperator_of_openParen hk] at this
      cases this
    rw [List.cons_append, yieldGroup, if_neg hu, ih _ fun v hv => hw v (List.mem_cons_of_mem u hv)]
    simp

/-- No operator lies on top of an opening parenthesis when the inside is begun. -/
theorem stops_openParen {o : Token} (ho : o.kind = .openParen) (n : Nat) (pending : List Token) :
    Stops n (o :: pending) := by
  intro t ht htop
  obtain rfl := Option.some.inj ht
  rw [isOperator_of_openParen ho] at htop
  exact Bool.false_ne_true htop.1

theorem polishOnto_openParen {o : Token} (ho : o.kind = .openParen)
    (output pending rest : List Token) :
    polishOnto output ⟨pending⟩ (o :: rest) = polishOnto output ⟨o :: pending⟩ rest := by
  rw [polishOnto, isValue_of_openParen ho, if_neg Bool.false_ne_true, isOperator_of_openParen ho,
    if_neg Bool.false_ne_true, if_pos ho]
  rfl

theorem polishOnto_closeParen {o c : Token} {waiting : List Token} (ho : o.kind = .openParen)
    (hc : c.kind = .closeParen) (hw : ∀ u ∈ waiting, u.isOperator = true)
    (output pending rest : List Token) :
    polishOnto output ⟨waiting ++ o :: pending⟩ (c :: rest) =
      polishOnto (waiting.reverse ++ output) ⟨pending⟩ rest := by
  have hcp : c.kind ≠ .openParen := by rw [hc]; decide
  rw [polishOnto, isValue_of_closeParen hc, if_neg Bool.false_ne_true, isOperator_of_closeParen hc,
    if_neg Bool.false_ne_true, if_neg hcp, if_pos hc]
  simp only [yieldGroup_waiting output pending hw ho]

theorem polishes_operand {n : Nat} {t : Token} (ht : t.isValue = true) :
    Polishes n [t] t.value := by
  have heval : Evaluates [number t.value] t.value := evaluates_operand rfl
  refine ⟨[number t.value], [], by simp, heval, fun output pending rest _ => ?_⟩
  rw [List.singleton_append, polishOnto, if_pos ht]
  rfl

/-- Parentheses move everything that waits inside them to the output. -/
theorem polishes_parens {n : Nat} {o c : Token} {ts : List Token} {v : Int32}
    (ho : o.kind = .openParen) (hc : c.kind = .closeParen) (h : Polishes 0 ts v) :
    Polishes n (o :: ts ++ [c]) v := by
  obtain ⟨done, waiting, hw, heval, hread⟩ := h
  refine ⟨done ++ waiting, [], by simp, by rwa [List.append_nil], fun output pending rest _ => ?_⟩
  calc polishOnto output ⟨pending⟩ (o :: ts ++ [c] ++ rest)
      = polishOnto output ⟨pending⟩ (o :: (ts ++ c :: rest)) := by simp
    _ = polishOnto output ⟨o :: pending⟩ (ts ++ c :: rest) := polishOnto_openParen ho ..
    _ = polishOnto (done.reverse ++ output) ⟨waiting ++ o :: pending⟩ (c :: rest) :=
        hread output (o :: pending) (c :: rest) (stops_openParen ho 0 pending)
    _ = polishOnto (waiting.reverse ++ (done.reverse ++ output)) ⟨pending⟩ rest :=
        polishOnto_closeParen ho hc (fun u hu => (hw u hu).1) ..
    _ = polishOnto ((done ++ waiting).reverse ++ output) ⟨[] ++ pending⟩ rest := by simp

/-- An operator moves what waits of its left operand, and waits itself below what waits of its
right operand. -/
theorem polishes_binary {n : Nat} {op : ArithOp} {t : Token} {ls rs : List Token} {x y : Int}
    (hn : n ≤ op.binding) (ht : t.kind = op.kind) (hl : Polishes op.binding ls (Int32.ofInt x))
    (hr : Polishes (op.binding + 1) rs (Int32.ofInt y)) :
    Polishes n (ls ++ t :: rs) (Int32.ofInt (op.apply x y)) := by
  obtain ⟨done₁, waiting₁, hw₁, heval₁, hread₁⟩ := hl
  obtain ⟨done₂, waiting₂, hw₂, heval₂, hread₂⟩ := hr
  have hprec : precedence t = op.binding := ArithOp.precedence_of_kind ht
  refine ⟨done₁ ++ waiting₁ ++ done₂, waiting₂ ++ [t], ?_, ?_, fun output pending rest hp => ?_⟩
  · intro u hu
    rcases List.mem_append.mp hu with hu | hu
    · obtain ⟨hop, hbind⟩ := hw₂ u hu
      exact ⟨hop, by omega⟩
    · obtain rfl := List.mem_singleton.mp hu
      exact ⟨ArithOp.isOperator_of_kind ht, by omega⟩
  · have heval := evaluates_binary ht heval₁ heval₂
    simpa only [List.append_assoc] using heval
  · have hp' : Stops (precedence t) pending := by
      rw [hprec]
      exact stops_mono hn hp
    -- the operator itself does not bind tightly enough to be moved by the right operand
    have hstop : Stops (op.binding + 1) (t :: pending) := by
      intro u hu htop
      obtain rfl := Option.some.inj hu
      omega
    have hmove : polishOnto (done₁.reverse ++ output) ⟨waiting₁ ++ pending⟩ (t :: (rs ++ rest)) =
        polishOnto (waiting₁.reverse ++ (done₁.reverse ++ output)) ⟨t :: pending⟩ (rs ++ rest) := by
      rw [polishOnto, ArithOp.isValue_of_kind ht, if_neg Bool.false_ne_true,
        ArithOp.isOperator_of_kind ht, if_pos rfl]
      simp only [yieldTo_waiting (done₁.reverse ++ output) (by rwa [hprec]) hp']
    calc polishOnto output ⟨pending⟩ (ls ++ t :: rs ++ rest)
        = polishOnto output ⟨pending⟩ (ls ++ t :: (rs ++ rest)) := by simp
      _ = polishOnto (done₁.reverse ++ output) ⟨waiting₁ ++ pending⟩ (t :: (rs ++ rest)) :=
          hread₁ output pending _ (stops_mono hn hp)
      _ = polishOnto (waiting₁.reverse ++ (done₁.reverse ++ output)) ⟨t :: pending⟩ (rs ++ rest) :=
          hmove
      _ = polishOnto (done₂.reverse ++ (waiting₁.reverse ++ (done₁.reverse ++ output)))
            ⟨waiting₂ ++ t :: pending⟩ rest := hread₂ _ (t :: pending) rest hstop
      _ = polishOnto ((done₁ ++ waiting₁ ++ done₂).reverse ++ output)
            ⟨waiting₂ ++ [t] ++ pending⟩ rest := by simp

/-- **Reading a written expression** appends its reverse Polish form to the output, up to the
operators that wait, and that form evaluates to the value of the expression. -/
theorem polishes_of_writes {n : Nat} {e : Arith} {ts : List Token} (h : Writes n e ts) :
    Polishes n ts (Int32.ofInt e.value) := by
  induction h with
  | operand ht =>
    rw [Arith.value, Int32.ofInt_toInt]
    exact polishes_operand ht
  | parens ho hc h ih => exact polishes_parens ho hc ih
  | binary hn ht hl hr ihl ihr => exact polishes_binary hn ht ihl ihr

/-! ### Folding -/

/-- The reverse Polish form of a written group evaluates to the value of its expression. -/
theorem evaluate_reversePolish_writes {e : Arith} {ts : List Token} {o c : Token}
    (ho : o.kind = .openParen) (hc : c.kind = .closeParen) (h : Writes 0 e ts) :
    ∃ polish, reversePolish (o :: ts ++ [c]) = .ok polish ∧
      evaluate polish = .ok (Int32.ofInt e.value) := by
  -- at level 2 no operator can wait, since none binds that tightly
  obtain ⟨done, waiting, hw, heval, hread⟩ := polishes_of_writes (.parens (n := 2) ho hc h)
  have hwaiting : waiting = [] := by
    rw [List.eq_nil_iff_forall_not_mem]
    intro t ht
    have hbind := (hw t ht).2
    unfold precedence at hbind
    split at hbind <;> omega
  subst hwaiting
  refine ⟨done, ?_, ?_⟩
  · have hpolish := hread [] [] [] (by simp [Stops])
    simp only [List.append_nil] at hpolish
    rw [reversePolish, Stack.empty, hpolish, polishOnto, yieldAll, List.reverse_reverse]
  · have hstack := heval Stack.empty []
    rw [List.append_nil, List.append_nil, evaluateOnto] at hstack
    rw [evaluate, hstack]
    rfl

/-- Every expression can be written: put parentheses around all of its parts. -/
theorem exists_writes (n : Nat) (e : Arith) : ∃ ts, Writes n e ts := by
  induction e generalizing n with
  | operand v => exact ⟨[number v], .operand (t := number v) rfl⟩
  | binary op left right ihl ihr =>
    obtain ⟨ls, hl⟩ := ihl op.binding
    obtain ⟨rs, hr⟩ := ihr (op.binding + 1)
    exact ⟨_, .parens (o := ofKind .openParen) (c := ofKind .closeParen) rfl rfl
      (.binary (t := ofKind op.kind) (Nat.zero_le _) rfl hl hr)⟩

/-- **Folding is arithmetic.**  However an expression is written in infix order, in a pair of
parentheses behind tokens that hold no opening one and in front of any tokens, folding replaces the
group by the expression's integer value, reduced to signed 32 bits. -/
theorem fold_writes (e : Arith) :
    (∃ ts, Writes 0 e ts) ∧
    ∀ (pre ts post : List Token) (o c : Token), (∀ t ∈ pre, t.kind ≠ .openParen) →
      o.kind = .openParen → c.kind = .closeParen → Writes 0 e ts →
      fold (pre ++ (o :: ts ++ [c]) ++ post) =
        .ok (pre ++ [number (Int32.ofInt e.value)] ++ post) := by
  refine ⟨exists_writes 0 e, fun pre ts post o c hpre ho hc h => ?_⟩
  obtain ⟨polish, hpolish, hvalue⟩ := evaluate_reversePolish_writes ho hc h
  simp only [fold, firstGroup_writes hpre ho hc h, hpolish, hvalue]
  simp

/-- A difference, then a sum with a product that has parentheses it does not need.  The value passes
2³¹ and wraps around; the parenthesis behind the group is left alone. -/
theorem fold_writes_wraps :
    fold [ofKind .times, ofKind .openParen, number 2147483647, ofKind .minus, number 1,
        ofKind .plus, number 2, ofKind .multiply, ofKind .openParen, byte 3, ofKind .closeParen,
        ofKind .closeParen, byte 0, ofKind .openParen] =
      .ok [ofKind .times, number (-2147483644), byte 0, ofKind .openParen] := by
  let difference : Arith := .binary .sub (.operand 2147483647) (.operand 1)
  let product : Arith := .binary .mul (.operand 2) (.operand 3)
  let ls : List Token := [number 2147483647] ++ ofKind .minus :: [number 1]
  let rs : List Token :=
    [number 2] ++ ofKind .multiply :: (ofKind .openParen :: [byte 3] ++ [ofKind .closeParen])
  have hdifference : Writes 0 difference ls :=
    .binary (Nat.le_refl 0) rfl (.operand (t := number 2147483647) rfl)
      (.operand (t := number 1) rfl)
  have hproduct : Writes 1 product rs :=
    .binary (Nat.le_refl 1) rfl (.operand (t := number 2) rfl)
      (.parens rfl rfl (.operand (t := byte 3) rfl))
  have hsum : Writes 0 (.binary .add difference product) (ls ++ ofKind .plus :: rs) :=
    .binary (Nat.le_refl 0) rfl hdifference hproduct
  have hvalue : Int32.ofInt (Arith.binary .add difference product).value = -2147483644 := by decide
  have hfold := (fold_writes _).2 [ofKind .times] _ [byte 0, ofKind .openParen] (ofKind .openParen)
    (ofKind .closeParen) (by decide) rfl rfl hsum
  rw [hvalue] at hfold
  exact hfold

end Token

end BootSector
