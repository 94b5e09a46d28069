import BootSector.Token.Arithmetic
import Mathlib.Data.List.TakeWhile

/-!
# Matched parentheses

`Balanced ts` says that every parenthesis of `ts` has its partner in `ts`, whatever the other tokens
are.  So a list has a parenthesis that matches its first opening one if it is
`pre ++ (o :: ts ++ [c]) ++ post` with no opening parenthesis in `pre` and `ts` balanced.

`firstGroup_balanced`: this is the group that is found, if only operands, operators and parentheses
stand in it; any other token in it is invalid arithmetic.
-/

namespace BootSector.Token

/-- Can the token stand in an arithmetic group? -/
def isArithmetic (t : Token) : Bool :=
  t.isValue || t.isOperator || t.kind == .openParen || t.kind == .closeParen

/-- **Every parenthesis has its partner.** -/
inductive Balanced : List Token → Prop where
  | nil : Balanced []
  | token {t : Token} {ts : List Token} (ho : t.kind ≠ .openParen) (hc : t.kind ≠ .closeParen)
    (h : Balanced ts) : Balanced (t :: ts)
  | parens {o c : Token} {ts us : List Token} (ho : o.kind = .openParen)
    (hc : c.kind = .closeParen) (h : Balanced ts) (h' : Balanced us) :
    Balanced (o :: ts ++ c :: us)

theorem Balanced.append {ts us : List Token} (h : Balanced ts) (h' : Balanced us) :
    Balanced (ts ++ us) := by
  induction h with
  | nil => exact h'
  | token ho hc h ih => exact .token ho hc ih
  | parens ho hc h hus ih ihus =>
    rw [List.append_assoc]
    exact .parens ho hc h ihus

theorem isArithmetic_of_openParen {t : Token} (h : t.kind = .openParen) :
    t.isArithmetic = true := by
  simp [isArithmetic, h]

theorem isArithmetic_of_closeParen {t : Token} (h : t.kind = .closeParen) :
    t.isArithmetic = true := by
  simp [isArithmetic, h]

/-- Apart from parentheses, arithmetic consists of operands and operators. -/
theorem isArithmetic_of_ne {t : Token} (ho : t.kind ≠ .openParen) (hc : t.kind ≠ .closeParen) :
    t.isArithmetic = (t.isValue || t.isOperator) := by
  rw [isArithmetic, beq_false_of_ne ho, beq_false_of_ne hc, Bool.or_false, Bool.or_false]

/-- Counting parentheses passes over a balanced list, unless a token of it is not arithmetic. -/
theorem closeGroup_balanced {ts : List Token} (h : Balanced ts) (seen : List Token) (depth : Nat)
    (rest : List Token) :
    closeGroup seen (depth + 1) (ts ++ rest) =
      if ts.all isArithmetic then closeGroup (ts.reverse ++ seen) (depth + 1) rest
      else .error .invalidArithmetic := by
  induction h generalizing seen depth rest with
  | nil => rfl
  | @token t ts ho hc h ih =>
    rw [List.cons_append, closeGroup, if_neg ho, if_neg hc, ← isArithmetic_of_ne ho hc, ih,
      List.all_cons, List.reverse_cons, List.append_assoc, List.singleton_append]
    cases t.isArithmetic <;> simp
  | @parens o c ts us ho hc h h' ih ih' =>
    have hco : c.kind ≠ .openParen := by rw [hc]; decide
    -- the parentheses raise the depth by one and lower it again
    have hus : closeGroup (ts.reverse ++ o :: seen) (depth + 1 + 1) (c :: (us ++ rest)) =
        if us.all isArithmetic then
          closeGroup (us.reverse ++ c :: (ts.reverse ++ o :: seen)) (depth + 1) rest
        else .error .invalidArithmetic := by
      rw [closeGroup, if_neg hco, if_pos hc, if_neg (by omega), Nat.add_sub_cancel, ih']
    rw [List.append_assoc, List.cons_append, closeGroup, if_pos ho, ih, List.cons_append, hus]
    simp only [List.all_append, List.all_cons, isArithmetic_of_openParen ho,
      isArithmetic_of_closeParen hc, Bool.true_and]
    cases ts.all isArithmetic <;> simp

theorem firstGroup_eq_none {tokens : List Token} (h : ∀ t ∈ tokens, t.kind ≠ .openParen) :
    firstGroup tokens = .ok none := by
  have htake : tokens.takeWhile (·.kind ≠ .openParen) = tokens :=
    List.takeWhile_eq_self_iff.mpr fun t ht => decide_eq_true (h t ht)
  simp only [firstGroup, htake, List.drop_length]

/-- Counting starts behind the first opening parenthesis. -/
theorem firstGroup_append {pre rest : List Token} {o : Token}
    (hpre : ∀ t ∈ pre, t.kind ≠ .openParen) (ho : o.kind = .openParen) :
    firstGroup (pre ++ o :: rest) =
      (closeGroup [o] 1 rest).map fun r => some ⟨pre, r.1, r.2⟩ := by
  have htake : (pre ++ o :: rest).takeWhile (·.kind ≠ .openParen) = pre := by
    rw [List.takeWhile_append_of_pos (fun t ht => decide_eq_true (hpre t ht)),
      List.takeWhile_cons_of_neg (by simp [ho]), List.append_nil]
  simp only [firstGroup, htake, List.drop_left]
  cases closeGroup [o] 1 rest <;> rfl

/-- **The first group of a list**, when its opening parenthesis has a partner. -/
theorem firstGroup_balanced {pre ts post : List Token} {o c : Token}
    (hpre : ∀ t ∈ pre, t.kind ≠ .openParen) (ho : o.kind = .openParen) (hc : c.kind = .closeParen)
    (h : Balanced ts) :
    firstGroup (pre ++ (o :: ts ++ [c]) ++ post) =
      if ts.all isArithmetic then .ok (some ⟨pre, o :: ts ++ [c], post⟩)
      else .error .invalidArithmetic := by
  have hc' : c.kind ≠ .openParen := by rw [hc]; decide
  have hlist : pre ++ (o :: ts ++ [c]) ++ post = pre ++ o :: (ts ++ c :: post) := by simp
  have hclose : closeGroup [o] 1 (ts ++ c :: post) =
      if ts.all isArithmetic then .ok (o :: ts ++ [c], post) else .error .invalidArithmetic := by
    rw [closeGroup_balanced h [o] 0, closeGroup, if_neg hc', if_pos hc, if_pos rfl]
    simp
  rw [hlist, firstGroup_append hpre ho, hclose]
  cases ts.all isArithmetic <;> rfl

end BootSector.Token
