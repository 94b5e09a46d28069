import BootSector.Token.Arithmetic
import Mathlib.Data.List.TakeWhile
import Mathlib.Tactic.SplitIfs

/-!
# The tokens of a line

Whatever a line holds, its tokens come from few sources: a string, a location counter or a number
with a sign, a literal, a punctuation character, a label, a name.  `Made loc t` says that `t` comes
from one of them.

`made_of_ofLine`: every token of a line is made.  `made_of_lexeme` reads it off the scanner, once
and for all, and folding adds nothing but numbers (`mem_or_number_of_fold`).  What is to be shown of
every token of a line is then a case for each source.
-/

namespace BootSector.Token

variable {loc : Location}

/-! ### Sources of tokens -/

/-- The word is a name: it starts with a word character other than a digit, and more word characters
may follow. -/
def IsName (word : List Char) : Prop :=
  (∃ c ∈ word.head?, Text.isDigit c = false) ∧ ∀ c ∈ word, isWordChar c = true

/-- **The tokens that a line can hold** when it is read at a location. -/
inductive Made (loc : Location) : Token → Prop where
  | string (text : List Char) : Made loc (string (Bytes.ofChars text))
  /-- A location counter, a number with a sign, or the value of a group. -/
  | number (v : Int32) : Made loc (number v)
  | literal {word : List Char} {t : Token} (h : ofLiteral word = .ok t) : Made loc t
  | punctuation {c : Char} {kind : TokenKind} (h : punctuation? c = some kind) :
    Made loc (ofKind kind)
  | label {word : List Char} (h : IsName word) : Made loc (label (Bytes.ofChars word))
  /-- A mnemonic, a register or a reference. -/
  | name {word : List Char} (h : IsName word) : Made loc (ofName loc word)

theorem isValue_of_ofLiteral {word : List Char} {t : Token} (h : ofLiteral word = .ok t) :
    t.isValue := by
  unfold ofLiteral ofBinary ofHex ofDecimal at h
  split at h
  · split_ifs at h
    obtain rfl := Except.ok.inj h
    rfl
  · split at h
    · split_ifs at h
      · obtain rfl := Except.ok.inj h
        rfl
      · obtain rfl := Except.ok.inj h
        rfl
    · cases h
  · split at h
    · split_ifs at h
      obtain rfl := Except.ok.inj h
      rfl
    · cases h

/-! ### Scanning -/

theorem made_of_ofWord {word : List Char} {colon : Bool} {t : Token}
    (hword : ∀ c ∈ word, isWordChar c = true) (h : ofWord loc word colon = .ok t) :
    Made loc t := by
  unfold ofWord at h
  split at h
  · cases h
  · rename_i c rest
    split_ifs at h with hdigit hcolon hcolon
    · exact .literal h
    · obtain rfl := Except.ok.inj h
      exact .label ⟨⟨c, rfl, Bool.eq_false_iff.mpr hdigit⟩, hword⟩
    · obtain rfl := Except.ok.inj h
      exact .name ⟨⟨c, rfl, Bool.eq_false_iff.mpr hdigit⟩, hword⟩

/-- The token of the word at the front of a text, when something is made of it. -/
theorem exists_of_map_ofWord {α : Type} {f : Token → α} {word : List Char} {colon : Bool} {r : α}
    (h : (ofWord loc word colon).map f = .ok r) : ∃ t, ofWord loc word colon = .ok t ∧ f t = r := by
  cases hword : ofWord loc word colon with
  | error e =>
    rw [hword] at h
    cases h
  | ok t =>
    rw [hword] at h
    exact ⟨t, rfl, Except.ok.inj h⟩

/-- **Every lexeme is made.** -/
theorem made_of_lexeme {previous : Option Token} {c : Char} {rest : List Char} {t : Token}
    {more : Nat} (h : lexeme loc previous c rest = .ok (some t, more)) : Made loc t := by
  unfold lexeme at h
  -- a comment or a blank is no token
  split at h
  · cases h
  split at h
  · cases h
  split at h
  · -- a string
    dsimp only at h
    split at h
    · cases h
      exact .string _
    · cases h
  split at h
  · -- a location counter
    split at h
    · cases h
      exact .number _
    · split_ifs at h <;> cases h <;> exact .number _
  split at h
  · -- a number with its sign
    obtain ⟨word, -, heq⟩ := exists_of_map_ofWord h
    cases heq
    exact .number _
  split at h
  · -- a punctuation character
    rename_i kind hkind
    cases h
    exact .punctuation hkind
  · split at h
    · -- a word
      obtain ⟨word, hword, heq⟩ := exists_of_map_ofWord h
      cases heq
      exact made_of_ofWord (fun _ hc => List.mem_takeWhile_imp hc) hword
    · cases h

/-- What holds for every lexeme holds for every token of a text. -/
theorem forall_mem_of_scanOnto {P : Token → Prop}
    (hlexeme : ∀ previous c rest t more, lexeme loc previous c rest = .ok (some t, more) → P t)
    {seen tokens : List Token} {skip : Nat} {cs : List Char} (hseen : ∀ t ∈ seen, P t)
    (h : scanOnto loc seen skip cs = .ok tokens) : ∀ t ∈ tokens, P t := by
  fun_induction scanOnto loc seen skip cs with
  | case1 seen skip =>
    obtain rfl := Except.ok.inj h
    exact fun t ht => hseen t (List.mem_reverse.mp ht)
  | case2 => cases h
  | case3 seen c rest t more hlex ih =>
    refine ih (fun t' ht' => ?_) h
    rcases List.mem_cons.mp ht' with rfl | ht'
    · exact hlexeme _ _ _ _ _ hlex
    · exact hseen t' ht'
  | case4 seen c rest more hlex ih => exact ih hseen h
  | case5 seen skip c rest ih => exact ih hseen h

/-! ### Folding -/

theorem suffix_of_closeGroup {seen tokens group after : List Token} {depth : Nat}
    (h : closeGroup seen depth tokens = .ok (group, after)) : after <:+ tokens := by
  fun_induction closeGroup seen depth tokens with
  | case1 => cases h
  | case2 seen depth t rest ht ih => exact (ih h).trans (List.suffix_cons t rest)
  | case3 seen t rest ht ht' =>
    obtain ⟨-, rfl⟩ := Prod.mk.inj (Except.ok.inj h)
    exact List.suffix_cons _ _
  | case4 seen depth t rest ht ht' hdepth ih => exact (ih h).trans (List.suffix_cons t rest)
  | case5 seen depth t rest ht ht' hpass ih => exact (ih h).trans (List.suffix_cons t rest)
  | case6 => cases h

/-- Around the first group stand tokens of the list. -/
theorem mem_of_firstGroup {tokens : List Token} {g : Grouped} {t : Token}
    (h : firstGroup tokens = .ok (some g)) (ht : t ∈ g.before ∨ t ∈ g.after) : t ∈ tokens := by
  dsimp only [firstGroup] at h
  split at h
  · cases h
  · rename_i first rest hdrop
    split at h
    · cases h
    · rename_i group after hclose
      obtain rfl := Option.some.inj (Except.ok.inj h)
      rcases ht with ht | ht
      · exact (List.takeWhile_sublist _).subset ht
      · have hrest : t ∈ rest := (suffix_of_closeGroup hclose).subset ht
        exact List.mem_of_mem_drop (hdrop ▸ List.mem_cons_of_mem first hrest)

/-- Folding adds nothing but numbers. -/
theorem mem_or_number_of_fold {tokens folded : List Token} {t : Token}
    (h : fold tokens = .ok folded) (ht : t ∈ folded) : t ∈ tokens ∨ ∃ v, t = number v := by
  unfold fold at h
  split at h
  · cases h
  · exact .inl (Except.ok.inj h ▸ ht)
  · rename_i g hg
    split at h
    · cases h
    · split at h
      · cases h
      · rename_i v _
        obtain rfl := Except.ok.inj h
        rcases List.mem_append.mp ht with ht | ht
        · exact .inl (mem_of_firstGroup hg (.inl ht))
        · rcases List.mem_cons.mp ht with rfl | ht
          · exact .inr ⟨v, rfl⟩
          · exact .inl (mem_of_firstGroup hg (.inr ht))

/-- **Every token of a line is made.** -/
theorem made_of_ofLine {line : Bytes} {tokens : List Token} {t : Token}
    (h : ofLine loc line = .ok tokens) (ht : t ∈ tokens) : Made loc t := by
  unfold ofLine at h
  split at h
  · cases h
  · rename_i scanned hscan
    rcases mem_or_number_of_fold h ht with ht | ⟨v, rfl⟩
    · exact forall_mem_of_scanOnto (fun _ _ _ _ _ hlexeme => made_of_lexeme hlexeme)
        (fun _ hnil => (List.not_mem_nil hnil).elim) hscan t ht
    · exact .number v

end BootSector.Token
