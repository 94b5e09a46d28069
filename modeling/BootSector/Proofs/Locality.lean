import BootSector.Proofs.Grammar
import BootSector.Proofs.Groups
import BootSector.Proofs.Tokens

/-!
# What a line owes to its location

Two things on a line depend on the location at which it is read: `$` and `$$`, which are numbers,
and a jump, which remembers its position.  A line that writes no `$` outside strings and comments
depends on its location through its jumps only.

* `exposed` keeps the characters outside strings and comments.  The scanner moves through a text
  along it (`exposed_suffix_of_lexeme`), so it never meets a `$` that is not exposed.
* `Token.moved δ` adds `δ` to the position of a jump.  At a location that is `δ` further on, a line
  without `$` has the same tokens moved by `δ` (`ofLine_moved`), and they make the same instruction
  moved by `δ` (`ofTokens_moved`).
-/

namespace BootSector

namespace Token

/-! ### Characters outside strings and comments -/

/-- Where a character of a text stands. -/
inductive Region where
  | code
  | string
  | comment
  deriving DecidableEq, Repr

/-- **The characters of a text outside its strings and comments**, when the text starts in the given
region. -/
def exposed : Region → List Char → List Char
  | _, [] => []
  | .code, c :: rest =>
    if c = ';' then exposed .comment rest
    else if c = '"' then exposed .string rest
    else c :: exposed .code rest
  | .string, c :: rest => if c = '"' then exposed .code rest else exposed .string rest
  | .comment, c :: rest =>
    if c = '\n' then c :: exposed .code rest else exposed .comment rest

/-- **The line names no location counter**: it has no `$` outside strings and comments. -/
def CounterFree (line : Bytes) : Prop := '$' ∉ exposed .code (Text.Utf8.decode line)

instance (line : Bytes) : Decidable (CounterFree line) :=
  inferInstanceAs (Decidable ('$' ∉ exposed .code (Text.Utf8.decode line)))

theorem exposed_cons {c : Char} (hcomment : c ≠ ';') (hstring : c ≠ '"') (rest : List Char) :
    exposed .code (c :: rest) = c :: exposed .code rest := by
  rw [exposed, if_neg hcomment, if_neg hstring]

/-- A comment ends in front of the newline. -/
theorem exposed_comment (cs : List Char) :
    exposed .comment cs = exposed .code (cs.drop (cs.takeWhile (· ≠ '\n')).length) := by
  induction cs with
  | nil => rfl
  | cons c rest ih =>
    rw [exposed]
    by_cases hc : c = '\n'
    · subst hc
      rw [if_pos rfl, List.takeWhile_cons_of_neg (by simp), List.length_nil, List.drop_zero,
        exposed_cons (by decide) (by decide)]
    · rw [if_neg hc, ih, List.takeWhile_cons_of_pos (by simpa using hc), List.length_cons,
        List.drop_succ_cons]

/-- A string ends behind its closing quote. -/
theorem exposed_string {cs : List Char} (h : (cs.takeWhile (· ≠ '"')).length < cs.length) :
    exposed .string cs = exposed .code (cs.drop ((cs.takeWhile (· ≠ '"')).length + 1)) := by
  induction cs with
  | nil => cases h
  | cons c rest ih =>
    rw [exposed]
    by_cases hc : c = '"'
    · subst hc
      rw [if_pos rfl, List.takeWhile_cons_of_neg (by simp), List.length_nil, List.drop_succ_cons,
        List.drop_zero]
    · rw [List.takeWhile_cons_of_pos (by simpa using hc), List.length_cons] at h ⊢
      rw [if_neg hc, ih (by simpa using h), List.drop_succ_cons]

theorem ne_of_isWordChar {c : Char} (h : isWordChar c = true) : c ≠ ';' ∧ c ≠ '"' := by
  constructor
  · rintro rfl
    exact absurd h (by decide)
  · rintro rfl
    exact absurd h (by decide)

theorem exposed_word {word : List Char} (h : ∀ c ∈ word, isWordChar c = true) (cs : List Char) :
    exposed .code (word ++ cs) = word ++ exposed .code cs := by
  induction word with
  | nil => rfl
  | cons c word ih =>
    obtain ⟨hcomment, hstring⟩ := ne_of_isWordChar (h c List.mem_cons_self)
    rw [List.cons_append, exposed_cons hcomment hstring,
      ih fun d hd => h d (List.mem_cons_of_mem c hd), List.cons_append]

/-- What is exposed behind the word at the front of a text. -/
theorem exposed_drop_frontWord (cs : List Char) :
    exposed .code (cs.drop (frontWord cs).1.length) <:+ exposed .code cs ∧
      ((frontWord cs).2 = true →
        exposed .code (cs.drop ((frontWord cs).1.length + 1)) <:+ exposed .code cs) := by
  have hword : ∀ c ∈ (frontWord cs).1, isWordChar c = true := fun c hc => List.mem_takeWhile_imp hc
  have hsplit : (frontWord cs).1 ++ cs.drop (frontWord cs).1.length = cs :=
    List.prefix_iff_eq_append.mp (List.takeWhile_prefix _)
  have hbehind : exposed .code (cs.drop (frontWord cs).1.length) <:+ exposed .code cs := by
    conv => rhs; rw [← hsplit, exposed_word hword]
    exact List.suffix_append _ _
  refine ⟨hbehind, fun hcolon => List.IsSuffix.trans ?_ hbehind⟩
  -- the colon is exposed as well
  have hhead : (cs.drop (frontWord cs).1.length).head? = some ':' := by
    simpa [frontWord] using hcolon
  rw [← List.drop_drop]
  cases hdrop : cs.drop (frontWord cs).1.length with
  | nil =>
    rw [hdrop] at hhead
    cases hhead
  | cons c rest =>
    rw [hdrop, List.head?_cons, Option.some.injEq] at hhead
    subst hhead
    rw [List.drop_one, List.tail_cons, exposed_cons (by decide) (by decide)]
    exact List.suffix_cons _ _

/-- **The scanner moves along what is exposed.** -/
theorem exposed_suffix_of_lexeme {loc : Location} {previous : Option Token} {c : Char}
    {rest : List Char} {t? : Option Token} {more : Nat}
    (h : lexeme loc previous c rest = .ok (t?, more)) :
    exposed .code (rest.drop more) <:+ exposed .code (c :: rest) := by
  unfold lexeme at h
  by_cases hcomment : c = ';'
  · subst hcomment
    cases h
    rewrite [exposed, if_pos rfl, exposed_comment]
    exact List.suffix_refl _
  rw [if_neg hcomment] at h
  by_cases hblank : Text.isBlank c = true
  · rw [if_pos hblank] at h
    cases h
    have hstring : c ≠ '"' := by
      rintro rfl
      exact absurd hblank (by decide)
    rw [exposed_cons hcomment hstring]
    exact List.suffix_cons _ _
  rw [if_neg hblank] at h
  by_cases hstring : c = '"'
  · subst hstring
    rw [if_pos rfl] at h
    dsimp only at h
    split at h
    · rename_i hclosed
      cases h
      rewrite [exposed, if_neg (by decide), if_pos rfl, exposed_string hclosed]
      exact List.suffix_refl _
    · cases h
  rw [if_neg hstring] at h
  rw [exposed_cons hcomment hstring]
  split at h
  · -- a location counter
    split at h
    · cases h
      exact List.suffix_cons _ _
    · rename_i d rest
      split_ifs at h with hstart
      · cases h
        subst hstart
        rw [List.drop_one, List.tail_cons, exposed_cons (by decide) (by decide)]
        exact (List.suffix_cons _ _).trans (List.suffix_cons _ _)
      · cases h
        exact List.suffix_cons _ _
  split at h
  · -- a number with its sign
    obtain ⟨t, -, heq⟩ := exists_of_map_ofWord h
    cases heq
    exact (exposed_drop_frontWord rest).1.trans (List.suffix_cons _ _)
  split at h
  · -- a punctuation character
    cases h
    exact List.suffix_cons _ _
  split at h
  · -- a word, which starts with the character at hand
    rename_i hword
    obtain ⟨t, -, heq⟩ := exists_of_map_ofWord h
    have hlength : (frontWord (c :: rest)).1.length = (frontWord rest).1.length + 1 := by
      simp [frontWord, List.takeWhile_cons_of_pos hword]
    obtain ⟨hbehind, hcolon⟩ := exposed_drop_frontWord (c :: rest)
    rw [exposed_cons hcomment hstring, hlength, List.drop_succ_cons] at hbehind
    rw [exposed_cons hcomment hstring, hlength, List.drop_succ_cons] at hcolon
    obtain ⟨-, rfl⟩ := Prod.mk.inj heq
    split
    · rename_i hc
      show exposed .code (rest.drop (frontWord (c :: rest)).1.length) <:+ _
      rw [hlength]
      exact hcolon hc
    · show exposed .code (rest.drop ((frontWord (c :: rest)).1.length - 1)) <:+ _
      rw [hlength, Nat.add_sub_cancel]
      exact hbehind
  · cases h

/-! ### Tokens at another location -/

variable {δ : UInt16} {loc loc' : Location}

/-- Is the token a jump? -/
def isJump (t : Token) : Bool := t.kind == .jz || t.kind == .jmp

/-- **The token at a location that is `δ` further on**: a jump moves with the location. -/
def moved (δ : UInt16) (t : Token) : Token :=
  if t.isJump then { t with position := t.position + δ } else t

@[simp] theorem moved_kind (t : Token) : (t.moved δ).kind = t.kind := by
  unfold moved
  split <;> rfl

@[simp] theorem moved_value (t : Token) : (t.moved δ).value = t.value := by
  unfold moved
  split <;> rfl

@[simp] theorem moved_text (t : Token) : (t.moved δ).text = t.text := by
  unfold moved
  split <;> rfl

@[simp] theorem moved_isValue (t : Token) : (t.moved δ).isValue = t.isValue := by
  rw [isValue, moved_kind, isValue]

@[simp] theorem moved_isOperator (t : Token) : (t.moved δ).isOperator = t.isOperator := by
  rw [isOperator, moved_kind, isOperator]

@[simp] theorem moved_register? (t : Token) : (t.moved δ).register? = t.register? := by
  simp only [register?, moved_kind, moved_text]

@[simp] theorem moved_number (v : Int32) : (number v).moved δ = number v := rfl

theorem moved_of_isJump {t : Token} (h : t.isJump = true) :
    t.moved δ = { t with position := t.position + δ } := if_pos h

theorem moved_eq_self {t : Token} (h : t.isJump = false) : t.moved δ = t :=
  if_neg (by rw [h]; exact Bool.false_ne_true)

theorem isJump_of_isArithmetic {t : Token} (h : t.isArithmetic = true) : t.isJump = false := by
  by_contra hjump
  rw [Bool.not_eq_false, isJump, Bool.or_eq_true, beq_iff_eq, beq_iff_eq] at hjump
  rcases hjump with hkind | hkind <;>
    simp [isArithmetic, isValue, isOperator, TokenKind.isOperator, hkind] at h

theorem isArithmetic_of_isValue {t : Token} (h : t.isValue = true) : t.isArithmetic = true := by
  rw [isArithmetic, h]
  rfl

theorem ofName_moved (hloc : loc'.current = loc.current + δ) (word : List Char) :
    ofName loc' word = (ofName loc word).moved δ := by
  dsimp only [ofName]
  split
  · rename_i kind hkind
    by_cases hjump : kind = .jz ∨ kind = .jmp
    · rw [if_pos hjump, if_pos hjump, moved_of_isJump (by simpa [isJump, jump] using hjump), hloc]
      rfl
    · rw [if_neg hjump, if_neg hjump, moved_eq_self]
      simpa [isJump, ofKind] using hjump
  · refine (moved_eq_self ?_).symm
    unfold ofRegister?
    split_ifs <;> rfl

theorem ofWord_moved (hloc : loc'.current = loc.current + δ) (word : List Char) (colon : Bool) :
    ofWord loc' word colon = (ofWord loc word colon).map (moved δ) := by
  unfold ofWord
  split
  · rfl
  · split_ifs
    · rfl
    · -- a literal has no position
      cases hliteral : ofLiteral _ with
      | error e => rfl
      | ok t =>
        have hvalue := isValue_of_ofLiteral hliteral
        rw [Except.map, moved_eq_self (isJump_of_isArithmetic (isArithmetic_of_isValue hvalue))]
    · rfl
    · rw [ofName_moved hloc]
      rfl

theorem isSign_moved (previous : Option Token) (rest : List Char) :
    isSign (previous.map (moved δ)) rest = isSign previous rest := by
  cases previous <;> simp [isSign]

theorem lexeme_moved (hloc : loc'.current = loc.current + δ) (previous : Option Token) {c : Char}
    (hc : c ≠ '$') (rest : List Char) :
    lexeme loc' (previous.map (moved δ)) c rest =
      (lexeme loc previous c rest).map fun r => (r.1.map (moved δ), r.2) := by
  unfold lexeme
  rw [if_neg hc, if_neg hc, isSign_moved]
  split
  · rfl
  split
  · rfl
  split
  · dsimp only
    split <;> rfl
  split
  · dsimp only
    rw [ofWord_moved hloc]
    cases ofWord loc _ _ with
    | error e => rfl
    | ok t => simp [Except.map]
  split
  · rename_i kind hkind
    have hjump : (ofKind kind).isJump = false := by
      unfold punctuation? at hkind
      split at hkind <;> cases hkind <;> rfl
    simp [Except.map, moved_eq_self hjump]
  split
  · dsimp only
    rw [ofWord_moved hloc]
    cases ofWord loc _ _ <;> rfl
  · rfl

theorem ne_of_not_mem_exposed {c : Char} {rest : List Char}
    (h : '$' ∉ exposed .code (c :: rest)) : c ≠ '$' := by
  rintro rfl
  rw [exposed_cons (by decide) (by decide)] at h
  exact h List.mem_cons_self

/-- **The tokens of a text at another location**, when no `$` is exposed in it. -/
theorem scanOnto_moved (hloc : loc'.current = loc.current + δ) (seen : List Token) (skip : Nat)
    (cs : List Char) (hfree : '$' ∉ exposed .code (cs.drop skip)) :
    scanOnto loc' (seen.map (moved δ)) skip cs =
      (scanOnto loc seen skip cs).map (List.map (moved δ)) := by
  fun_induction scanOnto loc seen skip cs with
  | case1 seen skip => simp [scanOnto, Except.map]
  | case2 seen c rest e hlex =>
    rw [scanOnto, List.head?_map, lexeme_moved hloc _ (ne_of_not_mem_exposed hfree), hlex]
    rfl
  | case3 seen c rest t more hlex ih =>
    rw [scanOnto, List.head?_map, lexeme_moved hloc _ (ne_of_not_mem_exposed hfree), hlex]
    exact ih fun hmem => hfree ((exposed_suffix_of_lexeme hlex).subset hmem)
  | case4 seen c rest more hlex ih =>
    rw [scanOnto, List.head?_map, lexeme_moved hloc _ (ne_of_not_mem_exposed hfree), hlex]
    exact ih fun hmem => hfree ((exposed_suffix_of_lexeme hlex).subset hmem)
  | case5 seen skip c rest ih =>
    rw [scanOnto]
    exact ih hfree

/-! ### Folding at another location -/

theorem closeGroup_moved (seen : List Token) (depth : Nat) (tokens : List Token) :
    closeGroup (seen.map (moved δ)) depth (tokens.map (moved δ)) =
      (closeGroup seen depth tokens).map fun r => (r.1.map (moved δ), r.2.map (moved δ)) := by
  fun_induction closeGroup seen depth tokens with
  | case1 => rfl
  | case2 seen depth t rest ht ih =>
    rw [List.map_cons, closeGroup, moved_kind, if_pos ht]
    exact ih
  | case3 seen t rest ht ht' =>
    rw [List.map_cons, closeGroup, moved_kind, if_neg ht, if_pos ht', if_pos rfl]
    simp [Except.map]
  | case4 seen depth t rest ht ht' hdepth ih =>
    rw [List.map_cons, closeGroup, moved_kind, if_neg ht, if_pos ht', if_neg hdepth]
    exact ih
  | case5 seen depth t rest ht ht' hpass ih =>
    rw [List.map_cons, closeGroup, moved_kind, moved_isValue, moved_isOperator, if_neg ht,
      if_neg ht', if_pos hpass]
    exact ih
  | case6 seen depth t rest ht ht' hpass =>
    rw [List.map_cons, closeGroup, moved_kind, moved_isValue, moved_isOperator, if_neg ht,
      if_neg ht', if_neg hpass]
    rfl

/-- A group holds nothing but arithmetic. -/
theorem isArithmetic_of_closeGroup {seen tokens group after : List Token} {depth : Nat}
    (hseen : ∀ t ∈ seen, t.isArithmetic = true)
    (h : closeGroup seen depth tokens = .ok (group, after)) :
    ∀ t ∈ group, t.isArithmetic = true := by
  have hcons {t : Token} {ts : List Token} (ht : t.isArithmetic = true)
      (hts : ∀ u ∈ ts, u.isArithmetic = true) : ∀ u ∈ t :: ts, u.isArithmetic = true :=
    List.forall_mem_cons.mpr ⟨ht, hts⟩
  fun_induction closeGroup seen depth tokens with
  | case1 => cases h
  | case2 seen depth t rest ht ih => exact ih (hcons (isArithmetic_of_openParen ht) hseen) h
  | case3 seen t rest ht ht' =>
    obtain ⟨rfl, -⟩ := Prod.mk.inj (Except.ok.inj h)
    exact fun u hu => hcons (isArithmetic_of_closeParen ht') hseen u (List.mem_reverse.mp hu)
  | case4 seen depth t rest ht ht' hdepth ih =>
    exact ih (hcons (isArithmetic_of_closeParen ht') hseen) h
  | case5 seen depth t rest ht ht' hpass ih =>
    exact ih (hcons (by rw [isArithmetic_of_ne ht ht', hpass]) hseen) h
  | case6 => cases h

theorem map_moved_eq_self {tokens : List Token} (h : ∀ t ∈ tokens, t.isJump = false) :
    tokens.map (moved δ) = tokens :=
  (List.map_congr_left fun t ht => moved_eq_self (h t ht)).trans (List.map_id tokens)

/-- A group starts with its parenthesis. -/
theorem kind_of_drop_takeWhile {tokens rest : List Token} {t : Token}
    (h : tokens.drop (tokens.takeWhile (·.kind ≠ .openParen)).length = t :: rest) :
    t.kind = .openParen := by
  induction tokens with
  | nil => cases h
  | cons u tokens ih =>
    by_cases hu : u.kind = .openParen
    · rw [List.takeWhile_cons_of_neg (by simpa using hu)] at h
      obtain ⟨rfl, -⟩ := List.cons.inj h
      exact hu
    · rw [List.takeWhile_cons_of_pos (by simpa using hu), List.length_cons,
        List.drop_succ_cons] at h
      exact ih h

/-- The first group stays as it is, and what stands around it moves. -/
theorem firstGroup_moved (tokens : List Token) :
    firstGroup (tokens.map (moved δ)) =
      (firstGroup tokens).map (Option.map fun g =>
        ⟨g.before.map (moved δ), g.group, g.after.map (moved δ)⟩) := by
  have hbefore : (tokens.map (moved δ)).takeWhile (·.kind ≠ .openParen) =
      (tokens.takeWhile (·.kind ≠ .openParen)).map (moved δ) := by
    simp [List.takeWhile_map, Function.comp_def]
  unfold firstGroup
  simp only [hbefore, List.length_map, ← List.map_drop]
  cases hdrop : tokens.drop (tokens.takeWhile (·.kind ≠ .openParen)).length with
  | nil => rfl
  | cons t rest =>
    have hopen : t.kind = .openParen := kind_of_drop_takeWhile hdrop
    have hclose := closeGroup_moved (δ := δ) [t] 1 rest
    rw [List.map_cons, List.map_nil] at hclose
    simp only [List.map_cons, hclose]
    cases hgroup : closeGroup [t] 1 rest with
    | error e => rfl
    | ok r =>
      obtain ⟨group, after⟩ := r
      have hself : group.map (moved δ) = group :=
        map_moved_eq_self fun u hu => isJump_of_isArithmetic <|
          isArithmetic_of_closeGroup (by simpa using isArithmetic_of_openParen hopen) hgroup u hu
      simp [Except.map, hself]

theorem fold_moved (tokens : List Token) :
    fold (tokens.map (moved δ)) = (fold tokens).map (List.map (moved δ)) := by
  unfold fold
  rw [firstGroup_moved]
  cases firstGroup tokens with
  | error e => rfl
  | ok g? =>
    cases g? with
    | none => rfl
    | some g =>
      simp only [Except.map, Option.map_some]
      cases reversePolish g.group with
      | error e => rfl
      | ok polish =>
        simp only
        cases evaluate polish with
        | error e => rfl
        | ok v => simp

/-- **The tokens of a line at another location.**  A line that names no location counter has the
same tokens there, with its jumps moved. -/
theorem ofLine_moved {line : Bytes} (hfree : CounterFree line)
    (hloc : loc'.current = loc.current + δ) :
    ofLine loc' line = (ofLine loc line).map (List.map (moved δ)) := by
  have hscan : scan loc' (Text.Utf8.decode line) =
      (scan loc (Text.Utf8.decode line)).map (List.map (moved δ)) :=
    scanOnto_moved hloc [] 0 _ hfree
  unfold ofLine
  rw [hscan]
  cases scan loc (Text.Utf8.decode line) with
  | error e => rfl
  | ok tokens => exact fold_moved tokens

/-- Without a jump, such a line has the same tokens everywhere. -/
theorem ofLine_eq_of_isJump {line : Bytes} {tokens : List Token} (hfree : CounterFree line)
    (h : ofLine loc line = .ok tokens) (hjump : ∀ t ∈ tokens, t.isJump = false) (loc' : Location) :
    ofLine loc' line = .ok tokens := by
  have hloc : loc'.current = loc.current + (loc'.current - loc.current) := by grind
  rw [ofLine_moved hfree hloc, h, Except.map, map_moved_eq_self hjump]

end Token

/-! ### Instructions at another location -/

namespace Instruction

variable {δ : UInt16}

/-- **The instruction at a location that is `δ` further on**: a jump takes its position along. -/
def moved (δ : UInt16) : Instruction → Instruction
  | times count body => times count (body.moved δ)
  | jump opcode position target => jump opcode (position + δ) target
  | i => i

@[simp] theorem moved_length (i : Instruction) : (i.moved δ).length = i.length := by
  induction i with
  | times count body ih => rw [moved, length, ih, length]
  | _ => rfl

@[simp] theorem moved_isOrigin (i : Instruction) : (i.moved δ).isOrigin = i.isOrigin := by
  cases i <;> rfl

theorem atEnd_moved {i : Instruction} (hi : i.moved δ = i) (rest : List Token) :
    atEnd (rest.map (Token.moved δ)) i = (atEnd rest i).map (moved δ) := by
  unfold atEnd
  rw [List.isEmpty_map]
  split
  · rw [Except.map, hi]
  · rfl

@[simp] theorem count_moved (t : Token) : count (t.moved δ) = count t := by
  simp only [count, Token.moved_kind, Token.moved_value]

theorem repeated_moved (n : UInt16) (body : Instruction) :
    repeated n (body.moved δ) = (repeated n body).map (moved δ) := by
  unfold repeated
  rw [moved_isOrigin, moved_length]
  split_ifs <;> rfl

theorem ofOrg_moved (args : List Token) :
    ofOrg (args.map (Token.moved δ)) = (ofOrg args).map (moved δ) := by
  cases args with
  | nil => rfl
  | cons n rest =>
    rw [List.map_cons, ofOrg, ofOrg, count_moved]
    cases count n with
    | error e => rfl
    | ok addr => exact atEnd_moved rfl rest

theorem ofInt_moved (args : List Token) :
    ofInt (args.map (Token.moved δ)) = (ofInt args).map (moved δ) := by
  cases args with
  | nil => rfl
  | cons vector rest =>
    rw [List.map_cons, ofInt, ofInt, Token.moved_kind, lowByte, Token.moved_value]
    split
    · exact atEnd_moved rfl rest
    · rfl

theorem ofOffset_moved (args : List Token) :
    ofOffset (args.map (Token.moved δ)) = (ofOffset args).map (moved δ) := by
  match args with
  | [] | [_] => rfl
  | name :: amount :: rest =>
    simp only [List.map_cons, ofOffset, Token.moved_kind, Token.moved_text, Token.moved_value]
    split
    · exact atEnd_moved rfl rest
    · rfl

theorem ofOr_moved (args : List Token) :
    ofOr (args.map (Token.moved δ)) = (ofOr args).map (moved δ) := by
  match args with
  | [] | [_] => rfl
  | reg :: rm :: rest =>
    simp only [List.map_cons, ofOr, Token.moved_kind, Token.moved_register?]
    split
    · exact atEnd_moved rfl rest
    · rfl

theorem ofMov_moved (args : List Token) :
    ofMov (args.map (Token.moved δ)) = (ofMov args).map (moved δ) := by
  match args with
  | [] | [_] | _ :: _ :: _ :: _ => rfl
  | [dst, src] =>
    simp only [List.map_cons, List.map_nil, ofMov, lowByte, Token.moved_kind, Token.moved_text,
      Token.moved_value, Token.moved_register?]
    split
    · rfl
    · split
      · rfl
      · rfl
      · split <;> rfl
      · rfl

theorem ofJump_moved (opcode : UInt8) (position : UInt16) (args : List Token) :
    ofJump opcode (position + δ) (args.map (Token.moved δ)) =
      (ofJump opcode position args).map (moved δ) := by
  match args with
  | [] | _ :: _ :: _ => rfl
  | [target] =>
    simp only [List.map_cons, List.map_nil, ofJump, Token.moved_kind, Token.moved_text,
      Token.moved_value]
    split
    · rfl
    · split <;> rfl
    · rfl

/-- **The instruction of moved tokens is the instruction of the tokens, moved.** -/
theorem ofTokens_moved (tokens : List Token) :
    ofTokens (tokens.map (Token.moved δ)) = (ofTokens tokens).map (moved δ) := by
  have hposition {t : Token} (ht : t.isJump = true) : (t.moved δ).position = t.position + δ := by
    rw [Token.moved_of_isJump ht]
  fun_induction ofTokens tokens with
  | case1 => rfl
  | case2 t args ht =>
    rw [List.map_cons, ofTokens.eq_def]
    simp only [Token.moved_kind, ht, lowByte, Token.moved_value]
    exact atEnd_moved rfl args
  | case3 t args ht hlen =>
    rw [List.map_cons, ofTokens.eq_def]
    simp only [Token.moved_kind, ht, Token.moved_text, if_pos hlen]
    rfl
  | case4 t args ht hlen =>
    rw [List.map_cons, ofTokens.eq_def]
    simp only [Token.moved_kind, ht, Token.moved_text, if_neg hlen]
    exact atEnd_moved rfl args
  | case5 t ht =>
    rw [List.map_cons, List.map_nil, ofTokens.eq_def]
    simp only [Token.moved_kind, ht]
    rfl
  | case6 t ht n body e hn =>
    rw [List.map_cons, List.map_cons, ofTokens.eq_def]
    simp only [Token.moved_kind, ht, count_moved, hn]
    rfl
  | case7 t ht n body count hn hbody =>
    rw [List.map_cons, List.map_cons, ofTokens.eq_def]
    simp only [Token.moved_kind, ht, count_moved, hn, List.isEmpty_map, if_pos hbody]
    rfl
  | case8 t ht n body count hn hbody e he ih =>
    rw [List.map_cons, List.map_cons, ofTokens.eq_def]
    simp only [Token.moved_kind, ht, count_moved, hn, List.isEmpty_map, if_neg hbody, ih, he]
    rfl
  | case9 t ht n body count hn hbody i hi ih =>
    rw [List.map_cons, List.map_cons, ofTokens.eq_def]
    simp only [Token.moved_kind, ht, count_moved, hn, List.isEmpty_map, if_neg hbody, ih, hi]
    exact repeated_moved count i
  | case10 t args ht =>
    rw [List.map_cons, ofTokens.eq_def]
    simp only [Token.moved_kind, ht]
    exact ofOrg_moved args
  | case11 t args ht =>
    rw [List.map_cons, ofTokens.eq_def]
    simp only [Token.moved_kind, ht]
    exact ofOffset_moved args
  | case12 t args ht =>
    rw [List.map_cons, ofTokens.eq_def]
    simp only [Token.moved_kind, ht]
    exact ofInt_moved args
  | case13 t args ht | case14 t args ht | case15 t args ht =>
    rw [List.map_cons, ofTokens.eq_def]
    simp only [Token.moved_kind, ht]
    exact atEnd_moved rfl args
  | case16 t args ht =>
    rw [List.map_cons, ofTokens.eq_def]
    simp only [Token.moved_kind, ht]
    exact ofMov_moved args
  | case17 t args ht =>
    rw [List.map_cons, ofTokens.eq_def]
    simp only [Token.moved_kind, ht]
    exact ofOr_moved args
  | case18 t args ht | case19 t args ht =>
    rw [List.map_cons, ofTokens.eq_def]
    simp only [Token.moved_kind, ht,
      hposition (show t.isJump = true by rw [Token.isJump, ht]; rfl)]
    exact ofJump_moved _ _ args
  | case20 t args =>
    rw [List.map_cons, ofTokens.eq_def]
    simp only [Token.moved_kind]
    rfl

end Instruction

end BootSector
