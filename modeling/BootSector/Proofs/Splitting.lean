import BootSector.Proofs.TrailingLayout
import BootSector.Proofs.Words

/-!
# Gaps and lexemes

The scanner moves along a line by lexemes of many kinds, each with its own rule where it ends.  Here
the line is described from outside: it is cut into lexemes with gaps around them (`Splitting`), a
gap holds blanks and comments only (`Gap`), and a lexeme spells its token (`Spells`).  What a lexeme
spells depends on the token in front of it and on the text behind it, and on nothing else.

`gap_or_spells_of_lexeme` and `lexeme_of_spells` say that the scanner takes a lexeme exactly where
one is spelt, and passes over exactly the gaps.  So a line has the tokens of its splitting, and a
line that cannot be split is refused (`ofLine_splits`).
-/

namespace BootSector.Token

variable {loc : Location} {previous : Option Token} {c : Char} {cs word rest : List Char} {t : Token}
  {more : Nat}

/-! ### Gaps and lexemes -/

/-- **A gap in front of `rest`**: blanks, and comments up to a newline or the end of the line. -/
inductive Gap (rest : List Char) : List Char → Prop where
  | nil : Gap rest []
  | blank {c : Char} {gap : List Char} (hc : Text.isBlank c = true) (hgap : Gap rest gap) :
    Gap rest (c :: gap)
  | comment {text gap : List Char} (htext : '\n' ∉ text)
    (hend : ∀ c ∈ (gap ++ rest).head?, c = '\n') (hgap : Gap rest gap) :
    Gap rest (';' :: (text ++ gap))

/-- **A minus sign in front of `rest` belongs to a number**: a digit follows, and the token in front
of it, if there is one, is no operand and closes no group. -/
def Signs (previous : Option Token) (rest : List Char) : Prop :=
  (∃ c ∈ rest.head?, Text.isDigit c = true) ∧
    ∀ u ∈ previous, u.kind ≠ .byte ∧ u.kind ≠ .number ∧ u.kind ≠ .closeParen

/-- A word may end in front of `rest`: it cannot be made longer, and has no colon. -/
def EndsWord (rest : List Char) : Prop := ∀ c ∈ rest.head?, isWordChar c = false ∧ c ≠ ':'

/-- **What a lexeme spells**, behind the token `previous` and in front of `rest`. -/
inductive Spells (loc : Location) (previous : Option Token) (rest : List Char) :
    List Char → Token → Prop where
  | string {text : List Char} (htext : '"' ∉ text) :
    Spells loc previous rest ('"' :: (text ++ ['"'])) (string (Bytes.ofChars text))
  | start : Spells loc previous rest ['$', '$'] (number (Int32.ofNat loc.start.toNat))
  | current (hrest : ∀ c ∈ rest.head?, Text.isBlank c = true) :
    Spells loc previous rest ['$'] (number (Int32.ofNat loc.current.toNat))
  | punctuation {c : Char} {kind : TokenKind} (hkind : punctuation? c = some kind)
    (hsign : c = '-' → ¬ Signs previous rest) : Spells loc previous rest [c] (ofKind kind)
  | negative {word : List Char} {t : Token} (hsign : Signs previous (word ++ rest))
    (hword : IsNumeral word) (hrest : EndsWord rest) (ht : Literal word t) :
    Spells loc previous rest ('-' :: word) (number (-t.value))
  | literal {word : List Char} {t : Token} (hword : IsNumeral word) (hrest : EndsWord rest)
    (ht : Literal word t) : Spells loc previous rest word t
  | label {word : List Char} (hword : IsName word) :
    Spells loc previous rest (word ++ [':']) (label (Bytes.ofChars word))
  | name {word : List Char} {t : Token} (hword : IsName word) (hrest : EndsWord rest)
    (ht : Naming loc word t) : Spells loc previous rest word t

theorem isSign_iff : isSign previous rest = true ↔ Signs previous rest := by
  rw [isSign, Signs, Bool.and_eq_true, Option.any_eq_true]
  refine and_congr (by simp [Option.mem_def]) ?_
  cases previous with
  | none => simp
  | some u =>
    simp only [isValue, Option.any_some, Bool.not_eq_true', Bool.or_eq_false_iff,
      beq_eq_false_iff_ne, Option.mem_def, Option.some.injEq, forall_eq']
    constructor
    · rintro ⟨⟨hnumber, hbyte⟩, hclose⟩
      exact ⟨hbyte, hnumber, hclose⟩
    · rintro ⟨hbyte, hnumber, hclose⟩
      exact ⟨⟨hnumber, hbyte⟩, hclose⟩

/-! ### What the scanner takes -/

/-- A text is cut where a condition ends. -/
theorem exists_append_takeWhile (p : Char → Bool) (cs : List Char) :
    ∃ front back, cs = front ++ back ∧ cs.takeWhile p = front ∧ (∀ c ∈ front, p c = true) ∧
      ∀ c ∈ back.head?, p c = false := by
  refine ⟨cs.takeWhile p, cs.dropWhile p, List.takeWhile_append_dropWhile.symm, rfl,
    fun c hc => List.mem_takeWhile_imp hc, fun c hc => ?_⟩
  have h := List.head?_dropWhile_not p cs
  rw [Option.mem_def.mp hc] at h
  exact h

/-- A comment goes into the gap behind it. -/
theorem gap_comment {gap : List Char} (hmore : (cs.takeWhile (· ≠ '\n')).length = more)
    (hcs : gap ++ rest = cs.drop more) (hgap : Gap rest gap) :
    Gap rest (';' :: (cs.take more ++ gap)) := by
  obtain ⟨text, back, rfl, htake, htext, hback⟩ := exists_append_takeWhile (· ≠ '\n') cs
  rw [htake] at hmore
  subst hmore
  rw [List.drop_left] at hcs
  rw [List.take_left]
  refine .comment (fun hmem => ?_) (fun d hd => ?_) hgap
  · exact absurd rfl (of_decide_eq_true (htext _ hmem))
  · rw [hcs] at hd
    simpa using hback d hd

/-- A closed quotation spells a string. -/
theorem spells_string (hlt : (cs.takeWhile (· ≠ '"')).length < cs.length) :
    Spells loc previous (cs.drop ((cs.takeWhile (· ≠ '"')).length + 1))
      ('"' :: cs.take ((cs.takeWhile (· ≠ '"')).length + 1))
      (string (Bytes.ofChars (cs.takeWhile (· ≠ '"')))) := by
  obtain ⟨text, back, hcs, htake, htext, hback⟩ := exists_append_takeWhile (· ≠ '"') cs
  rw [htake] at hlt ⊢
  subst hcs
  cases back with
  | nil => simp at hlt
  | cons d back =>
    obtain rfl : d = '"' := by simpa using hback d rfl
    have hquote : '"' ∉ text := fun hmem => absurd rfl (of_decide_eq_true (htext _ hmem))
    rw [List.take_length_add_append, List.drop_length_add_append]
    exact .string hquote

/-- The word at the front of a text and the text behind it. -/
theorem exists_frontWord (cs : List Char) : ∃ word back, cs = word ++ back ∧
    (∀ c ∈ word, isWordChar c = true) ∧ (∀ c ∈ back.head?, isWordChar c = false) ∧
      frontWord cs = (word, back.head? == some ':') := by
  obtain ⟨word, back, rfl, -, hword, hback⟩ := exists_append_takeWhile isWordChar cs
  exact ⟨word, back, rfl, hword, hback, frontWord_append hword hback⟩

/-- A text that starts with a word character starts with a word. -/
theorem exists_frontWord_cons (hc : isWordChar c = true) (cs : List Char) :
    ∃ word back, cs = word ++ back ∧ (∀ d ∈ c :: word, isWordChar d = true) ∧
      (∀ d ∈ back.head?, isWordChar d = false) ∧
        frontWord (c :: cs) = (c :: word, back.head? == some ':') := by
  obtain ⟨word, back, hcs, hword, hback, hfront⟩ := exists_frontWord (c :: cs)
  cases word with
  | nil =>
    obtain rfl : c :: cs = back := hcs
    exact absurd hc (by simp [hback c rfl])
  | cons d word =>
    obtain ⟨rfl, rfl⟩ := List.cons.inj hcs
    exact ⟨word, back, rfl, hword, hback, hfront⟩

theorem endsWord_of_colon (hback : ∀ d ∈ rest.head?, isWordChar d = false)
    (hcolon : (rest.head? == some ':') = false) : EndsWord rest := by
  intro d hd
  refine ⟨hback d hd, ?_⟩
  rintro rfl
  rw [Option.mem_def.mp hd] at hcolon
  cases hcolon

/-- The word that is taken at a word character spells its token. -/
theorem spells_word {front : List Char} {colon : Bool} (hc : isWordChar c = true)
    (hfront : frontWord (c :: cs) = (front, colon)) (h : ofWord loc front colon = .ok t)
    (hmore : (if colon then front.length else front.length - 1) = more) :
    Spells loc previous (cs.drop more) (c :: cs.take more) t := by
  obtain ⟨word, back, rfl, hword, hback, hfront'⟩ := exists_frontWord_cons hc cs
  obtain ⟨rfl, rfl⟩ := Prod.mk.inj (hfront'.symm.trans hfront)
  cases hcolon : back.head? == some ':' with
  | true =>
    obtain ⟨back, rfl⟩ : ∃ tail, back = ':' :: tail :=
      List.head?_eq_some_iff.mp (beq_iff_eq.mp hcolon)
    rw [hcolon] at h hmore
    obtain rfl : word.length + 1 = more := hmore
    obtain ⟨hdigit, rfl⟩ := ofWord_colon_eq_ok_iff.mp h
    rw [List.take_length_add_append, List.drop_length_add_append]
    exact .label ⟨⟨c, rfl, hdigit⟩, hword⟩
  | false =>
    rw [hcolon] at h hmore
    obtain rfl : word.length = more := hmore
    have hends := endsWord_of_colon hback hcolon
    rw [List.take_left, List.drop_left]
    rcases ofWord_eq_ok_iff.mp h with ⟨hdigit, ht⟩ | ⟨hdigit, ht⟩
    · exact .literal ⟨⟨c, rfl, hdigit⟩, hword⟩ hends ht
    · exact .name ⟨⟨c, rfl, hdigit⟩, hword⟩ hends ht

theorem isWordChar_of_isDigit (h : Text.isDigit c = true) : isWordChar c = true := by
  rw [isWordChar, h, Bool.or_true]

/-- The word that is taken behind a sign spells a negative number. -/
theorem spells_negative {front : List Char} {colon : Bool} (hsign : Signs previous cs)
    (hfront : frontWord cs = (front, colon)) (h : ofWord loc front colon = .ok t) :
    Spells loc previous (cs.drop front.length) ('-' :: cs.take front.length)
      (number (-t.value)) := by
  obtain ⟨c, hc, hdigit⟩ := hsign.1
  obtain ⟨cs, rfl⟩ := List.head?_eq_some_iff.mp hc
  obtain ⟨word, back, rfl, hword, hback, hfront'⟩ :=
    exists_frontWord_cons (isWordChar_of_isDigit hdigit) cs
  obtain ⟨rfl, rfl⟩ := Prod.mk.inj (hfront'.symm.trans hfront)
  rw [← List.cons_append, List.take_left, List.drop_left]
  cases hcolon : back.head? == some ':' with
  | true =>
    rw [hcolon] at h
    have hname := (ofWord_colon_eq_ok_iff.mp h).1
    rw [hdigit] at hname
    cases hname
  | false =>
    rw [hcolon, ofWord_of_isDigit hdigit] at h
    exact .negative hsign ⟨⟨c, rfl, hdigit⟩, hword⟩ (endsWord_of_colon hback hcolon)
      (literal_of_ofLiteral h)

/-- **What the scanner takes is a gap or a lexeme.** -/
theorem gap_or_spells_of_lexeme {t? : Option Token}
    (h : lexeme loc previous c cs = .ok (t?, more)) :
    (t? = none ∧ ∀ gap rest, gap ++ rest = cs.drop more → Gap rest gap →
      Gap rest (c :: (cs.take more ++ gap))) ∨
    ∃ t, t? = some t ∧ Spells loc previous (cs.drop more) (c :: cs.take more) t := by
  unfold lexeme at h
  split at h
  · -- a comment
    rename_i hc
    obtain ⟨rfl, hmore⟩ := Prod.mk.inj (Except.ok.inj h)
    subst hc
    exact .inl ⟨rfl, fun _ _ hcs hgap => gap_comment hmore hcs hgap⟩
  split at h
  · -- a blank
    rename_i hblank
    obtain ⟨rfl, rfl⟩ := Prod.mk.inj (Except.ok.inj h)
    exact .inl ⟨rfl, fun _ _ _ hgap => .blank hblank hgap⟩
  right
  split at h
  · -- a string
    rename_i hc
    dsimp only at h
    split at h
    · rename_i hlt
      obtain ⟨rfl, rfl⟩ := Prod.mk.inj (Except.ok.inj h)
      subst hc
      exact ⟨_, rfl, spells_string hlt⟩
    · cases h
  split at h
  · -- a location counter
    rename_i hc
    subst hc
    split at h
    · obtain ⟨rfl, rfl⟩ := Prod.mk.inj (Except.ok.inj h)
      exact ⟨_, rfl, .current (by rintro d ⟨⟩)⟩
    · rename_i d cs
      split_ifs at h with hd hblank
      · obtain ⟨rfl, rfl⟩ := Prod.mk.inj (Except.ok.inj h)
        subst hd
        exact ⟨_, rfl, .start⟩
      · obtain ⟨rfl, rfl⟩ := Prod.mk.inj (Except.ok.inj h)
        refine ⟨_, rfl, .current ?_⟩
        rintro e ⟨⟩
        exact hblank
  split at h
  · -- a number with its sign
    rename_i hminus
    obtain ⟨rfl, hsign⟩ := hminus
    obtain ⟨u, hu, heq⟩ := exists_of_map_ofWord h
    obtain ⟨rfl, rfl⟩ := Prod.mk.inj heq
    exact ⟨_, rfl, spells_negative (isSign_iff.mp hsign) rfl hu⟩
  rename_i hminus
  split at h
  · -- a punctuation character
    rename_i kind hkind
    obtain ⟨rfl, rfl⟩ := Prod.mk.inj (Except.ok.inj h)
    exact ⟨_, rfl, .punctuation hkind fun hc hsign => hminus ⟨hc, isSign_iff.mpr hsign⟩⟩
  · split at h
    · -- a word
      rename_i hc
      obtain ⟨u, hu, heq⟩ := exists_of_map_ofWord h
      obtain ⟨rfl, hmore⟩ := Prod.mk.inj heq
      exact ⟨_, rfl, spells_word hc rfl hu hmore⟩
    · cases h

/-! ### What is spelt is taken -/

theorem frontWord_of_endsWord (hword : ∀ d ∈ word, isWordChar d = true) (hrest : EndsWord rest) :
    frontWord (word ++ rest) = (word, false) := by
  have hcolon : (rest.head? == some ':') = false := by
    cases hhead : rest.head? with
    | none => rfl
    | some d => simpa using (hrest d hhead).2
  rw [frontWord_append hword fun d hd => (hrest d hd).1, hcolon]

/-- A word without a colon is taken to its end. -/
theorem lexeme_of_endsWord (hword : ∀ d ∈ c :: word, isWordChar d = true) (hrest : EndsWord rest)
    (ht : ofWord loc (c :: word) false = .ok t) :
    lexeme loc previous c (word ++ rest) = .ok (some t, word.length) := by
  have hfront : frontWord (c :: (word ++ rest)) = (c :: word, false) :=
    frontWord_of_endsWord hword hrest
  exact lexeme_of_isWordChar (hword c List.mem_cons_self) hfront ht

/-- A location counter is taken in front of a blank and at the end. -/
theorem lexeme_current (hrest : ∀ d ∈ rest.head?, Text.isBlank d = true) :
    lexeme loc previous '$' rest = .ok (some (number (Int32.ofNat loc.current.toNat)), 0) := by
  cases rest with
  | nil => rfl
  | cons d rest =>
    have hblank : Text.isBlank d = true := hrest d rfl
    have hd : d ≠ '$' := by
      rintro rfl
      exact absurd hblank (by decide)
    unfold lexeme
    rw [if_neg (by decide), if_neg (by decide), if_neg (by decide), if_pos rfl]
    dsimp only
    rw [if_neg hd, if_pos hblank]

theorem plain_of_punctuation? {kind : TokenKind} (h : punctuation? c = some kind) :
    c ≠ ';' ∧ Text.isBlank c = false ∧ c ≠ '"' ∧ c ≠ '$' := by
  unfold punctuation? at h
  split at h
  case h_6 => cases h
  all_goals decide

/-- A punctuation character is taken where it is not the sign of a number. -/
theorem lexeme_punctuation {kind : TokenKind} (hkind : punctuation? c = some kind)
    (hsign : c = '-' → ¬ Signs previous rest) :
    lexeme loc previous c rest = .ok (some (ofKind kind), 0) := by
  obtain ⟨hcomment, hblank, hquote, hdollar⟩ := plain_of_punctuation? hkind
  have hminus : ¬ (c = '-' ∧ isSign previous rest = true) := fun h =>
    hsign h.1 (isSign_iff.mp h.2)
  unfold lexeme
  rw [if_neg hcomment, hblank, if_neg Bool.false_ne_true, if_neg hquote, if_neg hdollar,
    if_neg hminus, hkind]

/-- **What is spelt is taken by the scanner.** -/
theorem lexeme_of_spells (h : Spells loc previous rest cs t) :
    ∃ c tail, cs = c :: tail ∧
      lexeme loc previous c (tail ++ rest) = .ok (some t, tail.length) := by
  cases h with
  | @string text htext =>
    refine ⟨_, _, rfl, ?_⟩
    rw [List.append_assoc, List.singleton_append, lexeme_string htext, List.length_append]
    rfl
  | start => exact ⟨_, _, rfl, rfl⟩
  | current hrest => exact ⟨_, _, rfl, lexeme_current hrest⟩
  | punctuation hkind hsign => exact ⟨_, _, rfl, lexeme_punctuation hkind hsign⟩
  | @negative word u hsign hword hrest hu =>
    obtain ⟨c, hc, hdigit⟩ := hword.1
    have hread : ofWord loc word false = .ok u := by
      obtain ⟨tail, rfl⟩ := List.head?_eq_some_iff.mp hc
      exact ofWord_eq_ok_iff.mpr (.inl ⟨hdigit, hu⟩)
    refine ⟨_, _, rfl, ?_⟩
    rw [lexeme_of_isSign (isSign_iff.mpr hsign) (frontWord_of_endsWord hword.2 hrest), hread]
    rfl
  | literal hword hrest ht =>
    obtain ⟨c, hc, hdigit⟩ := hword.1
    obtain ⟨tail, rfl⟩ := List.head?_eq_some_iff.mp hc
    exact ⟨_, _, rfl, lexeme_of_endsWord hword.2 hrest (ofWord_eq_ok_iff.mpr (.inl ⟨hdigit, ht⟩))⟩
  | @label word hword =>
    obtain ⟨c, hc, -⟩ := hword.1
    obtain ⟨tail, rfl⟩ := List.head?_eq_some_iff.mp hc
    refine ⟨c, tail ++ [':'], rfl, ?_⟩
    rw [List.append_assoc, List.singleton_append, lexeme_label hword, List.length_append]
    rfl
  | name hword hrest ht =>
    obtain ⟨c, hc, hdigit⟩ := hword.1
    obtain ⟨tail, rfl⟩ := List.head?_eq_some_iff.mp hc
    exact ⟨_, _, rfl, lexeme_of_endsWord hword.2 hrest (ofWord_eq_ok_iff.mpr (.inr ⟨hdigit, ht⟩))⟩

/-! ### Splittings of a line -/

/-- A lexeme of a line with the gap in front of it and the token that it spells. -/
structure Piece where
  /-- The gap in front of the lexeme. -/
  gap : List Char
  /-- The characters of the lexeme. -/
  lexeme : List Char
  /-- The token of the lexeme. -/
  token : Token

/-- The text of some pieces with a last gap behind them. -/
def joined (pieces : List Piece) (last : List Char) : List Char :=
  pieces.flatMap (fun p => p.gap ++ p.lexeme) ++ last

theorem joined_cons (p : Piece) (pieces : List Piece) (last : List Char) :
    joined (p :: pieces) last = p.gap ++ (p.lexeme ++ joined pieces last) := by
  rw [joined, List.flatMap_cons, List.append_assoc, List.append_assoc]
  rfl

/-- The gaps of the pieces are gaps, and behind a token each lexeme spells the token of its piece. -/
def Splits (loc : Location) : Option Token → List Piece → List Char → Prop
  | _, [], last => Gap [] last
  | previous, p :: pieces, last =>
    Gap (p.lexeme ++ joined pieces last) p.gap ∧
      Spells loc previous (joined pieces last) p.lexeme p.token ∧
      Splits loc (some p.token) pieces last

/-- **A splitting of a line** into gaps and lexemes. -/
structure Splitting (loc : Location) where
  /-- The lexemes, each with the gap in front of it. -/
  pieces : List Piece
  /-- The gap behind the last lexeme. -/
  last : List Char
  /-- The lexemes spell their tokens, with gaps around them. -/
  splits : Splits loc none pieces last

namespace Splitting

/-- The line that is split. -/
def text (s : Splitting loc) : List Char := joined s.pieces s.last

/-- The tokens that the lexemes spell. -/
def tokens (s : Splitting loc) : List Token := s.pieces.map (·.token)

end Splitting

variable {seen tokens : List Token} {pieces : List Piece} {last gap : List Char}

/-- The scanner passes over a gap. -/
theorem scanOnto_gap (h : Gap rest gap) :
    scanOnto loc seen 0 (gap ++ rest) = scanOnto loc seen 0 rest := by
  induction h with
  | nil => rfl
  | @blank c gap hc hgap ih =>
    have hblank : ∀ d ∈ [c], Text.isBlank d = true := by
      rw [List.forall_mem_singleton]
      exact hc
    rw [← ih]
    exact scanOnto_blanks hblank (gap ++ rest)
  | @comment text gap htext hend hgap ih =>
    have hdrop : (text ++ (gap ++ rest)).dropWhile (· ≠ '\n') = gap ++ rest := by
      have hall : ∀ d ∈ text, decide (d ≠ '\n') = true := fun d hd =>
        decide_eq_true fun h => htext (h ▸ hd)
      rw [List.dropWhile_append_of_pos hall]
      cases hback : gap ++ rest with
      | nil => rfl
      | cons d back =>
        obtain rfl : d = '\n' := hend d (by rw [hback]; rfl)
        rfl
    rw [List.cons_append, List.append_assoc, scanOnto_semicolon, hdrop, ih]

/-- **The scanner reads the tokens of a splitting.** -/
theorem scanOnto_joined (h : Splits loc seen.head? pieces last) :
    scanOnto loc seen 0 (joined pieces last) = .ok (seen.reverse ++ pieces.map (·.token)) := by
  induction pieces generalizing seen with
  | nil =>
    have hgap : scanOnto loc seen 0 (last ++ []) = scanOnto loc seen 0 [] := scanOnto_gap h
    rw [List.append_nil] at hgap
    rw [joined, List.flatMap_nil, List.nil_append, hgap, scanOnto, List.map_nil, List.append_nil]
  | cons p pieces ih =>
    obtain ⟨hgap, hspells, htail⟩ := h
    obtain ⟨c, tail, hcs, hlexeme⟩ := lexeme_of_spells hspells
    have hnext : scanOnto loc (p.token :: seen) 0 (joined pieces last) =
        .ok ((p.token :: seen).reverse ++ pieces.map (·.token)) := ih htail
    rw [joined_cons, scanOnto_gap hgap, hcs, List.cons_append, scanOnto_of_lexeme hlexeme,
      List.drop_left, hnext, List.reverse_cons, List.append_assoc]
    rfl

/-- What belongs to a gap is put in front of the first piece. -/
theorem exists_splits_append {front : List Char} (h : Splits loc previous pieces last)
    (hfront : ∀ gap rest, gap ++ rest = joined pieces last → Gap rest gap →
      Gap rest (front ++ gap)) :
    ∃ pieces' last', joined pieces' last' = front ++ joined pieces last ∧
      pieces'.map (·.token) = pieces.map (·.token) ∧ Splits loc previous pieces' last' := by
  cases pieces with
  | nil => exact ⟨[], front ++ last, rfl, rfl, hfront last [] (List.append_nil last) h⟩
  | cons p pieces =>
    obtain ⟨hgap, hspells, htail⟩ := h
    refine ⟨⟨front ++ p.gap, p.lexeme, p.token⟩ :: pieces, last, ?_, rfl, ?_, hspells, htail⟩
    · rw [joined_cons, joined_cons, List.append_assoc]
    · exact hfront p.gap _ (joined_cons p pieces last).symm hgap

/-- **A text that is scanned can be split.** -/
theorem exists_splits_of_scanOnto {skip : Nat} (h : scanOnto loc seen skip cs = .ok tokens) :
    ∃ pieces last, joined pieces last = cs.drop skip ∧
      tokens = seen.reverse ++ pieces.map (·.token) ∧ Splits loc seen.head? pieces last := by
  fun_induction scanOnto loc seen skip cs with
  | case1 seen skip =>
    obtain rfl := Except.ok.inj h
    exact ⟨[], [], List.drop_nil.symm, (List.append_nil _).symm, .nil⟩
  | case2 => cases h
  | case3 seen c rest t more hlexeme ih =>
    obtain ⟨pieces, last, htext, rfl, hsplits⟩ := ih h
    obtain ⟨hnone, -⟩ | ⟨u, hu, hspells⟩ := gap_or_spells_of_lexeme hlexeme
    · cases hnone
    · obtain rfl := Option.some.inj hu
      rw [← htext] at hspells
      refine ⟨⟨[], c :: rest.take more, t⟩ :: pieces, last, ?_, by simp, .nil, hspells, hsplits⟩
      rw [joined_cons, htext]
      simp
  | case4 seen c rest more hlexeme ih =>
    obtain ⟨pieces, last, htext, rfl, hsplits⟩ := ih h
    obtain ⟨-, hgap⟩ | ⟨u, hu, -⟩ := gap_or_spells_of_lexeme hlexeme
    · have hfront : ∀ gap rest', gap ++ rest' = joined pieces last → Gap rest' gap →
          Gap rest' ((c :: rest.take more) ++ gap) := fun gap rest' hjoined =>
        hgap gap rest' (hjoined.trans htext)
      obtain ⟨pieces', last', htext', htokens, hsplits'⟩ := exists_splits_append hsplits hfront
      refine ⟨pieces', last', ?_, by rw [htokens], hsplits'⟩
      rw [htext', htext, List.cons_append, List.take_append_drop]
      rfl
    · cases hu
  | case5 seen skip c rest ih => exact ih h

/-- A text is scanned as the tokens of its splitting. -/
theorem scan_eq_ok_iff :
    scan loc cs = .ok tokens ↔ ∃ s : Splitting loc, s.text = cs ∧ s.tokens = tokens := by
  constructor
  · intro h
    obtain ⟨pieces, last, htext, rfl, hsplits⟩ := exists_splits_of_scanOnto h
    exact ⟨⟨pieces, last, hsplits⟩, htext, rfl⟩
  · rintro ⟨s, rfl, rfl⟩
    exact scanOnto_joined s.splits

/-- **Reading a line neither loses nor invents anything.**  A line is read exactly if its characters
split into lexemes with gaps around them; its tokens are those that the lexemes spell, with the
first group folded.  A line that cannot be split is refused. -/
theorem ofLine_splits (loc : Location) (line : Bytes) :
    (∀ folded, ofLine loc line = .ok folded ↔
      ∃ s : Splitting loc, s.text = Text.Utf8.decode line ∧ fold s.tokens = .ok folded) ∧
    ((∃ s : Splitting loc, s.text = Text.Utf8.decode line) ∨
      ∃ e, ofLine loc line = .error e) := by
  cases hscan : scan loc (Text.Utf8.decode line) with
  | error e =>
    have hline : ofLine loc line = .error e := by rw [ofLine, hscan]
    refine ⟨fun folded => ⟨fun h => ?_, ?_⟩, .inr ⟨e, hline⟩⟩
    · rw [hline] at h
      cases h
    · rintro ⟨s, htext, -⟩
      have h := scan_eq_ok_iff.mpr ⟨s, htext, rfl⟩
      rw [hscan] at h
      cases h
  | ok tokens =>
    have hline : ofLine loc line = fold tokens := by rw [ofLine, hscan]
    obtain ⟨s, htext, rfl⟩ := scan_eq_ok_iff.mp hscan
    refine ⟨fun folded => ⟨fun h => ⟨s, htext, hline ▸ h⟩, ?_⟩, .inl ⟨s, htext⟩⟩
    rintro ⟨s', htext', hfold⟩
    -- a line has the same tokens in every splitting
    have htokens := scan_eq_ok_iff.mpr ⟨s', htext', rfl⟩
    rw [hscan] at htokens
    rw [hline, Except.ok.inj htokens]
    exact hfold

/-- A minus sign that belongs to a number and one that does not, a comment that ends at a newline,
and a string with a semicolon in it. -/
theorem ofLine_splits_signs : ∃ s : Splitting ⟨0x7C00, 0x7C05⟩,
    s.text = Text.Utf8.decode (Bytes.ofString "-1 -2;é\n\"a;b\"$$") ∧
    fold s.tokens = .ok [number (-1), ofKind .minus, number 2, string (Bytes.ofString "a;b"),
      number 0x7C00] :=
  ((ofLine_splits _ _).1 _).mp (by decide +kernel)

end BootSector.Token
