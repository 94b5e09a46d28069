import BootSector.Proofs.RoundTrip
import BootSector.Proofs.Locality
import Mathlib.Data.List.Chain

/-!
# Lines that are written from tokens

A list of tokens is written as a line by putting the tokens in source form, with single spaces
between them.  Scanning such a line gives the tokens back, if each of them can be written at all
(`Written`) and no number with a minus sign stands where the sign would be an operator
(`MayFollow`).

`ReadsAs loc cs t` is what a single step needs: in front of a space, or at the end of the line, the
scanner takes exactly the characters `cs` and makes the token `t` of them.  There is a lemma for
each kind of lexeme (`readsAs_word`, `readsAs_label`, `readsAs_negative`, `readsAs_string`,
`readsAs_punctuation`), `readsAs_of_written` has a case for each kind of token, and
`scanOnto_rendered` runs along the line.
-/

namespace BootSector.Token

variable {loc : Location} {t : Token}

/-! ### Writing -/

/-- The token in source form.  A string keeps its characters as they are, and a jump does not show
where it stands. -/
def surface (t : Token) : Bytes :=
  match t.kind with
  | .string => Bytes.ofAscii '"' :: t.text ++ [Bytes.ofAscii '"']
  | .jz | .jmp => Bytes.ofChars t.kind.name
  | _ => t.write

/-- **The line of some tokens**: each in source form, with a space between two. -/
def rendered (tokens : List Token) : Bytes :=
  [Bytes.ofAscii ' '].intercalate (tokens.map surface)

/-- The names that are no references, in lower case. -/
def reserved : List Bytes := mnemonics.map (·.1) ++ Register.byteNames ++ Register.wordNames

/-- The kinds of punctuation tokens, without the opening parenthesis, which starts a group. -/
def symbols : List TokenKind := [.closeParen, .plus, .minus, .multiply]

/-- **The tokens that have a source form** at a location. -/
inductive Written (loc : Location) : Token → Prop where
  | byte (v : UInt8) : Written loc (byte v)
  | number {v : Int32} (hv : v.toInt.natAbs ≤ 2147483647) : Written loc (number v)
  | string {text : List Char} (htext : '"' ∉ text) : Written loc (string (Bytes.ofChars text))
  | label {word : List Char} (hword : IsName word) : Written loc (label (Bytes.ofChars word))
  | reference {word : List Char} (hword : IsName word)
    (hfree : Bytes.ofChars (word.map Text.toLower) ∉ reserved) :
    Written loc (reference (Bytes.ofChars word))
  | register8 {name : Bytes} (hname : name ∈ Register.byteNames) :
    Written loc { kind := .register8, text := name }
  | register16 {name : Bytes} (hname : name ∈ Register.wordNames) :
    Written loc { kind := .register16, text := name }
  | mnemonic {name : Bytes} {kind : TokenKind} (hname : (name, kind) ∈ mnemonics)
    (hjump : kind ≠ .jz ∧ kind ≠ .jmp) : Written loc (ofKind kind)
  | jump {kind : TokenKind} (hkind : kind = .jz ∨ kind = .jmp) : Written loc (jump kind loc.current)
  | punctuation {kind : TokenKind} (hkind : kind ∈ symbols) : Written loc (ofKind kind)

/-- May `t` stand directly behind `u`?  Behind an operand, a minus sign is an operator. -/
def MayFollow (u t : Token) : Prop :=
  t.kind = .number → t.value.toInt < 0 → u.isValue = false ∧ u.kind ≠ .closeParen

instance : DecidableRel MayFollow := fun u t =>
  inferInstanceAs (Decidable (t.kind = .number → t.value.toInt < 0 →
    u.isValue = false ∧ u.kind ≠ .closeParen))

instance : DecidablePred IsName := fun word =>
  decidable_of_iff (word.head?.any (!Text.isDigit ·) = true ∧ word.all isWordChar = true) <| by
    simp [IsName, Option.any_eq_true]

/-! ### The characters of words -/

theorem isWordChar_of_isBlank {c : Char} (h : Text.isBlank c = true) : isWordChar c = false := by
  have hpoints : ∀ n ∈ List.range' 0x09 5 ++ List.range' 0x2000 11 ++
      [0x20, 0x85, 0xA0, 0x1680, 0x2028, 0x2029, 0x202F, 0x205F, 0x3000],
      isWordChar (Char.ofNat n) = false := by decide +kernel
  rw [← Char.ofNat_toNat c]
  apply hpoints
  simp only [Text.isBlank, Bool.or_eq_true, Bool.and_eq_true, decide_eq_true_eq, beq_iff_eq] at h
  simp only [List.mem_append, List.mem_range'_1, List.mem_cons, List.not_mem_nil, or_false]
  omega

/-- A word character is neither a blank nor the start of anything else than a word. -/
theorem plain_of_isWordChar {c : Char} (h : isWordChar c = true) :
    Text.isBlank c = false ∧ punctuation? c = none ∧ c ≠ '$' ∧ c ≠ '-' := by
  refine ⟨?_, ?_, ?_, ?_⟩
  · rw [Bool.eq_false_iff]
    intro hblank
    rw [isWordChar_of_isBlank hblank] at h
    cases h
  · unfold punctuation?
    split
    case h_6 => rfl
    all_goals exact absurd h (by decide)
  · rintro rfl
    exact absurd h (by decide)
  · rintro rfl
    exact absurd h (by decide)

theorem isDigit_of_asciiDigit {c : Char} (h : c.isDigit = true) : Text.isDigit c = true := by
  have hle := Text.toNat_le_of_isDigit h
  rw [Text.isDigit, if_pos (by omega), h]

theorem isWordChar_of_asciiDigit {c : Char} (h : c.isDigit = true) : isWordChar c = true := by
  rw [isWordChar, isDigit_of_asciiDigit h, Bool.or_true]

/-! ### Single lexemes -/

theorem scanOnto_drop (seen : List Token) (skip : Nat) (cs : List Char) :
    scanOnto loc seen skip cs = scanOnto loc seen 0 (cs.drop skip) := by
  induction cs generalizing skip with
  | nil => cases skip <;> rfl
  | cons c cs ih =>
    cases skip with
    | zero => rfl
    | succ skip => rw [scanOnto, ih, List.drop_succ_cons]

theorem scanOnto_of_lexeme {seen : List Token} {c : Char} {rest : List Char} {more : Nat}
    (h : lexeme loc seen.head? c rest = .ok (some t, more)) :
    scanOnto loc seen 0 (c :: rest) = scanOnto loc (t :: seen) 0 (rest.drop more) := by
  rw [scanOnto, h]
  exact scanOnto_drop (t :: seen) more rest

/-- The text is at its end or goes on with a space. -/
def Separated (rest : List Char) : Prop := ∀ c ∈ rest.head?, c = ' '

theorem separated_nil : Separated [] := by
  rintro c ⟨⟩

theorem separated_space (rest : List Char) : Separated (' ' :: rest) := by
  rintro c ⟨⟩
  rfl

/-- **The scanner makes the token of the characters**, wherever the token may stand. -/
def ReadsAs (loc : Location) (cs : List Char) (t : Token) : Prop :=
  ∀ (seen : List Token) (rest : List Char), Separated rest → (∀ u ∈ seen.head?, MayFollow u t) →
    scanOnto loc seen 0 (cs ++ rest) = scanOnto loc (t :: seen) 0 rest

theorem frontWord_append {word rest : List Char} (hword : ∀ c ∈ word, isWordChar c = true)
    (hrest : ∀ c ∈ rest.head?, isWordChar c = false) :
    frontWord (word ++ rest) = (word, rest.head? == some ':') := by
  have htake : (word ++ rest).takeWhile isWordChar = word := by
    rw [List.takeWhile_append_of_pos hword]
    cases rest with
    | nil => exact List.append_nil word
    | cons c rest => rw [List.takeWhile_cons_of_neg (by simp [hrest c rfl]), List.append_nil]
  simp only [frontWord, htake, List.drop_left]

theorem frontWord_append_separated {word rest : List Char}
    (hword : ∀ c ∈ word, isWordChar c = true) (hrest : Separated rest) :
    frontWord (word ++ rest) = (word, false) := by
  have hspace : ∀ c ∈ rest.head?, isWordChar c = false := by
    intro c hc
    rw [hrest c hc]
    decide
  rw [frontWord_append hword hspace]
  cases rest with
  | nil => rfl
  | cons c rest =>
    rw [hrest c rfl]
    rfl

/-- At a word character, the lexeme is decided by the word. -/
theorem lexeme_eq_map_ofWord {previous : Option Token} {c : Char} {cs word : List Char}
    {colon : Bool} (hc : isWordChar c = true) (hfront : frontWord (c :: cs) = (word, colon)) :
    lexeme loc previous c cs = (ofWord loc word colon).map fun t =>
      (some t, if colon then word.length else word.length - 1) := by
  obtain ⟨hcomment, hquote⟩ := ne_of_isWordChar hc
  obtain ⟨hblank, hpunctuation, hdollar, hminus⟩ := plain_of_isWordChar hc
  unfold lexeme
  rw [if_neg hcomment, hblank, if_neg Bool.false_ne_true, if_neg hquote, if_neg hdollar,
    if_neg fun h => hminus h.1]
  simp only [hpunctuation, hc, if_true, hfront]

theorem lexeme_of_isWordChar {previous : Option Token} {c : Char} {cs word : List Char}
    {colon : Bool} (hc : isWordChar c = true) (hfront : frontWord (c :: cs) = (word, colon))
    (ht : ofWord loc word colon = .ok t) :
    lexeme loc previous c cs = .ok (some t, if colon then word.length else word.length - 1) := by
  rw [lexeme_eq_map_ofWord hc hfront, ht]
  rfl

/-- At the sign of a number, the lexeme is decided by the word behind the sign. -/
theorem lexeme_of_isSign {previous : Option Token} {cs word : List Char} {colon : Bool}
    (hsign : isSign previous cs = true) (hfront : frontWord cs = (word, colon)) :
    lexeme loc previous '-' cs = (ofWord loc word colon).map fun t =>
      (some (number (-t.value)), word.length) := by
  unfold lexeme
  rw [if_neg (by decide), if_neg (by decide), if_neg (by decide), if_neg (by decide),
    if_pos ⟨rfl, hsign⟩]
  simp only [hfront]

/-- A word is read as the token of the word. -/
theorem readsAs_word {word : List Char} (hne : word ≠ []) (hword : ∀ c ∈ word, isWordChar c = true)
    (ht : ofWord loc word false = .ok t) : ReadsAs loc word t := by
  intro seen rest hrest _
  obtain ⟨c, cs, rfl⟩ := List.exists_cons_of_ne_nil hne
  have hfront : frontWord (c :: (cs ++ rest)) = (c :: cs, false) :=
    frontWord_append_separated hword hrest
  rw [List.cons_append,
    scanOnto_of_lexeme (lexeme_of_isWordChar (hword c List.mem_cons_self) hfront ht)]
  simp

/-- At a name, the lexeme takes the colon behind it. -/
theorem lexeme_label {previous : Option Token} {c : Char} {cs : List Char}
    (hword : IsName (c :: cs)) (rest : List Char) : lexeme loc previous c (cs ++ ':' :: rest) =
      .ok (some (label (Bytes.ofChars (c :: cs))), cs.length + 1) := by
  obtain ⟨⟨d, ⟨⟩, hdigit⟩, hchars⟩ := hword
  have hcolon : ∀ d ∈ (':' :: rest).head?, isWordChar d = false := by
    rintro d ⟨⟩
    decide
  have hfront : frontWord (c :: (cs ++ ':' :: rest)) = (c :: cs, true) :=
    frontWord_append hchars hcolon
  have ht : ofWord loc (c :: cs) true = .ok (label (Bytes.ofChars (c :: cs))) := by
    simp [ofWord, hdigit]
  exact lexeme_of_isWordChar (hchars c List.mem_cons_self) hfront ht

/-- A name with a colon is read as the definition of a label. -/
theorem readsAs_label {word : List Char} (hword : IsName word) :
    ReadsAs loc (word ++ [':']) (label (Bytes.ofChars word)) := by
  intro seen rest hrest _
  obtain ⟨c, hc, -⟩ := hword.1
  obtain ⟨cs, rfl⟩ : ∃ cs, word = c :: cs := List.head?_eq_some_iff.mp hc
  rw [List.append_assoc, List.singleton_append, List.cons_append,
    scanOnto_of_lexeme (lexeme_label hword rest)]
  simp

/-- A minus sign and digits are read as one number where the sign cannot be an operator. -/
theorem readsAs_negative {word : List Char} {u : Token} (hne : word ≠ [])
    (hword : ∀ c ∈ word, c.isDigit = true) (hu : ofWord loc word false = .ok u)
    (ht : t = number (-u.value)) (hneg : t.value.toInt < 0) : ReadsAs loc ('-' :: word) t := by
  intro seen rest hrest hfollow
  have hfront : frontWord (word ++ rest) = (word, false) :=
    frontWord_append_separated (fun c hc => isWordChar_of_asciiDigit (hword c hc)) hrest
  have hsign : isSign seen.head? (word ++ rest) = true := by
    obtain ⟨c, cs, rfl⟩ := List.exists_cons_of_ne_nil hne
    have hdigit : Text.isDigit c = true := isDigit_of_asciiDigit (hword c List.mem_cons_self)
    rw [isSign, List.cons_append, List.head?_cons, Option.any_some, hdigit, Bool.true_and]
    cases hprevious : seen.head? with
    | none => rfl
    | some v =>
      -- the token in front is no operand
      obtain ⟨hvalue, hclose⟩ := hfollow v hprevious (by rw [ht]; rfl) hneg
      simp [hvalue, hclose]
  have hlexeme : lexeme loc seen.head? '-' (word ++ rest) = .ok (some t, word.length) := by
    rw [lexeme_of_isSign hsign hfront, hu, ht]
    rfl
  rw [List.cons_append, scanOnto_of_lexeme hlexeme, List.drop_left]

/-- At a quote, the lexeme goes up to the next quote. -/
theorem lexeme_string {previous : Option Token} {text : List Char} (htext : '"' ∉ text)
    (rest : List Char) : lexeme loc previous '"' (text ++ '"' :: rest) =
      .ok (some (string (Bytes.ofChars text)), text.length + 1) := by
  have htake : (text ++ '"' :: rest).takeWhile (· ≠ '"') = text := by
    have hne : ∀ c ∈ text, decide (c ≠ '"') = true := fun c hc =>
      decide_eq_true fun h => htext (h ▸ hc)
    rw [List.takeWhile_append_of_pos hne, List.takeWhile_cons_of_neg (by simp), List.append_nil]
  unfold lexeme
  rw [if_neg (by decide), if_neg (by decide), if_pos rfl]
  simp only [htake]
  rw [if_pos (by simp)]

/-- A text between quotes is read as a string. -/
theorem readsAs_string {text : List Char} (htext : '"' ∉ text) :
    ReadsAs loc ('"' :: (text ++ ['"'])) (string (Bytes.ofChars text)) := by
  intro seen rest hrest _
  rw [List.cons_append, List.append_assoc, List.singleton_append,
    scanOnto_of_lexeme (lexeme_string htext rest)]
  simp

/-- In front of a space, a minus sign is an operator. -/
theorem lexeme_minus {previous : Option Token} {rest : List Char} (hrest : Separated rest) :
    lexeme loc previous '-' rest = .ok (some (ofKind .minus), 0) := by
  have hsign : isSign previous rest = false := by
    cases rest with
    | nil => rfl
    | cons c rest =>
      rw [isSign, List.head?_cons, Option.any_some, hrest c rfl]
      rfl
  unfold lexeme
  rw [if_neg (by decide), if_neg (by decide), if_neg (by decide), if_neg (by decide),
    if_neg (by simp [hsign])]
  rfl

theorem readsAs_punctuation {kind : TokenKind} (hkind : kind ∈ symbols) :
    ReadsAs loc kind.name (ofKind kind) := by
  intro seen rest hrest _
  simp only [symbols, List.mem_cons, List.not_mem_nil, or_false] at hkind
  rcases hkind with rfl | rfl | rfl | rfl
  · rfl
  · rfl
  · exact scanOnto_of_lexeme (lexeme_minus hrest)
  · rfl

/-! ### Literals -/

theorem ofWord_of_isDigit {c : Char} {cs : List Char} (hdigit : Text.isDigit c = true) :
    ofWord loc (c :: cs) false = ofLiteral (c :: cs) := by
  simp only [ofWord, hdigit, if_true, Bool.false_eq_true, if_false]

theorem toLower_of_asciiDigit {c : Char} (h : c.isDigit = true) : Text.toLower c = c := by
  have hle := Text.toNat_le_of_isDigit h
  have hupper : ¬ ('A'.val ≤ c.val ∧ c.val ≤ 'Z'.val) := by
    intro hupper
    have hge : 65 ≤ c.toNat := UInt32.le_iff_toNat_le.mp hupper.1
    omega
  rw [Text.toLower, if_pos (by omega)]
  exact dif_neg hupper

theorem ofLiteral_of_asciiDigits {word : List Char} (hword : ∀ c ∈ word, c.isDigit = true) :
    ofLiteral word = ofDecimal word := by
  have hlower : word.map Text.toLower = word :=
    (List.map_congr_left fun c hc => toLower_of_asciiDigit (hword c hc)).trans (List.map_id word)
  unfold ofLiteral
  rw [hlower]
  -- neither `b` nor `x` is a digit
  split
  · exact absurd (hword 'b' (by simp)) (by decide)
  · exact absurd (hword 'x' (by simp)) (by decide)
  · rfl

/-- A word of decimal digits is a number if its value is below 2³¹. -/
theorem ofWord_of_asciiDigits (loc : Location) {word : List Char} (hne : word ≠ [])
    (hword : ∀ c ∈ word, c.isDigit = true) :
    ofWord loc word false =
      if Nat.ofDigitChars 10 word 0 < 2147483648 then
        .ok (number (Int32.ofNat (Nat.ofDigitChars 10 word 0)))
      else .error (.notNumber (Bytes.ofChars word)) := by
  have hliteral : ofWord loc word false = ofLiteral word := by
    obtain ⟨c, cs, rfl⟩ := List.exists_cons_of_ne_nil hne
    exact ofWord_of_isDigit (isDigit_of_asciiDigit (hword c List.mem_cons_self))
  rw [hliteral, ofLiteral_of_asciiDigits hword, ofDecimal, Text.numeral?_of_isDigit hne hword]

theorem ofWord_decimal (loc : Location) {n : Nat} (hn : n ≤ 2147483647) :
    ofWord loc (Text.decimal n) false = .ok (number (Int32.ofNat n)) := by
  have hdigits : ∀ c ∈ Text.decimal n, c.isDigit = true := fun _ hc =>
    Text.isDigit_of_mem_decimal hc
  rw [ofWord_of_asciiDigits loc (Text.decimal_ne_nil n) hdigits, Text.ofDigitChars_decimal]
  exact if_pos (by omega)

theorem exists_of_mem_fixedHex {digit : Nat → Char} {width n : Nat} {c : Char}
    (h : c ∈ Text.fixedHex digit width n) : ∃ d < 16, c = digit d := by
  induction width with
  | zero => cases h
  | succ width ih =>
    rcases List.mem_cons.mp h with rfl | h
    · exact ⟨_, Nat.mod_lt _ (by decide), rfl⟩
    · exact ih h

theorem forall_mem_fixedHex {width n : Nat} : ∀ c ∈ Text.fixedHex Text.lowerHexDigit width n,
    isWordChar c = true ∧ Text.toLower c = c := by
  intro c hc
  obtain ⟨d, hd, rfl⟩ := exists_of_mem_fixedHex hc
  have hdigits : ∀ d < 16, isWordChar (Text.lowerHexDigit d) = true ∧
      Text.toLower (Text.lowerHexDigit d) = Text.lowerHexDigit d := by decide
  exact hdigits d hd

theorem ofWord_hex (v : UInt8) :
    ofWord loc ('0' :: 'x' :: Text.fixedHex Text.lowerHexDigit 2 v.toNat) false = .ok (byte v) := by
  have hlower : (Text.fixedHex Text.lowerHexDigit 2 v.toNat).map Text.toLower =
      Text.fixedHex Text.lowerHexDigit 2 v.toNat :=
    (List.map_congr_left fun c hc => (forall_mem_fixedHex c hc).2).trans (List.map_id _)
  have hvalue := Text.digitsOnto?_fixedHex_two v.toNat_lt
  have hword : ∀ digits, ofWord loc ('0' :: 'x' :: digits) false =
      ofHex (digits.map Text.toLower) := fun _ => rfl
  rw [hword, hlower, ofHex, hvalue]
  simp only [Text.length_fixedHex, if_true, UInt8.ofNat_toNat]

theorem readsAs_byte (v : UInt8) :
    ReadsAs loc ('0' :: 'x' :: Text.fixedHex Text.lowerHexDigit 2 v.toNat) (byte v) := by
  refine readsAs_word (List.cons_ne_nil _ _) ?_ (ofWord_hex v)
  rw [List.forall_mem_cons, List.forall_mem_cons]
  exact ⟨by decide, by decide, fun c hc => (forall_mem_fixedHex c hc).1⟩

/-- A number is read back with its sign. -/
theorem readsAs_number {v : Int32} (hv : v.toInt.natAbs ≤ 2147483647) :
    ReadsAs loc (Text.signedDecimal v.toInt) (number v) := by
  have hdigits : ∀ c ∈ Text.decimal v.toInt.natAbs, c.isDigit = true := fun _ hc =>
    Text.isDigit_of_mem_decimal hc
  rw [Text.signedDecimal]
  by_cases hneg : v.toInt < 0
  · rw [if_pos hneg]
    have hvalue : v = -Int32.ofNat v.toInt.natAbs := by
      rw [← Int32.ofInt_eq_ofNat, ← Int32.ofInt_neg, Int.ofNat_natAbs_of_nonpos (by omega),
        Int.neg_neg, Int32.ofInt_toInt]
    exact readsAs_negative (Text.decimal_ne_nil _) hdigits (ofWord_decimal loc hv)
      (congrArg Token.number hvalue) hneg
  · rw [if_neg hneg]
    have hvalue : Int32.ofNat v.toInt.natAbs = v := by
      rw [← Int32.ofInt_eq_ofNat, Int.natAbs_of_nonneg (by omega), Int32.ofInt_toInt]
    have hword := ofWord_decimal loc hv
    rw [hvalue] at hword
    have hchars : ∀ c ∈ Text.decimal v.toInt.natAbs, isWordChar c = true := fun c hc =>
      isWordChar_of_asciiDigit (hdigits c hc)
    exact readsAs_word (Text.decimal_ne_nil _) hchars hword

/-! ### Names -/

theorem readsAs_name {word : List Char} (hword : IsName word) :
    ReadsAs loc word (ofName loc word) := by
  obtain ⟨⟨c, hc, hdigit⟩, hchars⟩ := hword
  obtain ⟨cs, rfl⟩ : ∃ cs, word = c :: cs := List.head?_eq_some_iff.mp hc
  refine readsAs_word (List.cons_ne_nil c cs) hchars ?_
  simp [ofWord, hdigit]

theorem mnemonics_spec : ∀ e ∈ mnemonics, IsName e.2.name ∧
    Bytes.ofChars (e.2.name.map Text.toLower) = e.1 ∧ mnemonic? e.1 = some e.2 ∧
    surface (ofKind e.2) = Bytes.ofChars e.2.name := by
  decide

theorem readsAs_mnemonic (loc : Location) {name : Bytes} {kind : TokenKind}
    (h : (name, kind) ∈ mnemonics) :
    ReadsAs loc kind.name
      (if kind = .jz ∨ kind = .jmp then jump kind loc.current else ofKind kind) := by
  obtain ⟨hname, hlower, hkind, -⟩ := mnemonics_spec _ h
  have hread : ofName loc kind.name =
      if kind = .jz ∨ kind = .jmp then jump kind loc.current else ofKind kind := by
    simp only [ofName, hlower, hkind]
  rw [← hread]
  exact readsAs_name hname

theorem registers_spec : ∀ name ∈ Register.byteNames ++ Register.wordNames,
    IsName (Text.Utf8.decode name) ∧ Bytes.ofChars (Text.Utf8.decode name) = name ∧
    Bytes.ofChars ((Text.Utf8.decode name).map Text.toLower) = name ∧ mnemonic? name = none := by
  decide

theorem ofRegister?_byteNames : ∀ name ∈ Register.byteNames,
    ofRegister? name = some { kind := .register8, text := name } := by
  decide

theorem ofRegister?_wordNames : ∀ name ∈ Register.wordNames,
    ofRegister? name = some { kind := .register16, text := name } := by
  decide

theorem readsAs_register {name : Bytes} (hname : name ∈ Register.byteNames ++ Register.wordNames)
    (ht : ofRegister? name = some t) : ReadsAs loc (Text.Utf8.decode name) t := by
  obtain ⟨hword, -, hlower, hmnemonic⟩ := registers_spec name hname
  have hread : ofName loc (Text.Utf8.decode name) = t := by
    simp only [ofName, hlower, hmnemonic, ht, Option.getD_some]
  rw [← hread]
  exact readsAs_name hword

theorem indexIn?_eq_none {names : List Bytes} {name : Bytes} (h : name ∉ names) :
    Register.indexIn? names name = none := by
  rw [Register.indexIn?, Option.map_eq_none_iff, List.findIdx?_eq_none_iff]
  intro other hother
  exact beq_eq_false_iff_ne.mpr fun heq => h (heq ▸ hother)

/-- A name that is not reserved is a reference. -/
theorem ofName_of_not_mem_reserved {word : List Char}
    (hfree : Bytes.ofChars (word.map Text.toLower) ∉ reserved) :
    ofName loc word = reference (Bytes.ofChars word) := by
  simp only [reserved, List.mem_append, not_or] at hfree
  obtain ⟨⟨hmnemonics, hbyte⟩, hwordName⟩ := hfree
  have hmnemonic : mnemonic? (Bytes.ofChars (word.map Text.toLower)) = none := by
    rw [mnemonic?, Option.map_eq_none_iff, List.find?_eq_none]
    intro e he heq
    exact hmnemonics (List.mem_map.mpr ⟨e, he, beq_iff_eq.mp heq⟩)
  have hregister : ofRegister? (Bytes.ofChars (word.map Text.toLower)) = none := by
    simp [ofRegister?, Register.byteIndex?, Register.wordIndex?, indexIn?_eq_none hbyte,
      indexIn?_eq_none hwordName]
  simp only [ofName, hmnemonic, hregister, Option.getD_none]

theorem readsAs_reference {word : List Char} (hword : IsName word)
    (hfree : Bytes.ofChars (word.map Text.toLower) ∉ reserved) :
    ReadsAs loc word (reference (Bytes.ofChars word)) := by
  rw [← ofName_of_not_mem_reserved hfree]
  exact readsAs_name hword

/-! ### Lines -/

/-- **Every written token is read back from its source form.** -/
theorem readsAs_of_written (h : Written loc t) :
    ∃ cs, t.surface = Bytes.ofChars cs ∧ ReadsAs loc cs t := by
  cases h with
  | byte v =>
    have hvalue : (Int32.ofNat v.toNat).toUInt32.toNat = v.toNat := by
      have hlt := v.toNat_lt
      show (UInt32.ofNat v.toNat).toNat = v.toNat
      exact UInt32.toNat_ofNat_of_lt' (show v.toNat < 2 ^ 32 by omega)
    refine ⟨_, ?_, readsAs_byte v⟩
    rw [← hvalue]
    rfl
  | number hv => exact ⟨_, rfl, readsAs_number hv⟩
  | string htext =>
    refine ⟨_, ?_, readsAs_string htext⟩
    rw [Bytes.ofChars_cons, Bytes.ofChars_append]
    rfl
  | label hword =>
    refine ⟨_, ?_, readsAs_label hword⟩
    rw [Bytes.ofChars_append]
    rfl
  | reference hword hfree => exact ⟨_, rfl, readsAs_reference hword hfree⟩
  | @register8 name hname =>
    have hmem : name ∈ Register.byteNames ++ Register.wordNames := List.mem_append_left _ hname
    exact ⟨_, (registers_spec name hmem).2.1.symm,
      readsAs_register hmem (ofRegister?_byteNames name hname)⟩
  | @register16 name hname =>
    have hmem : name ∈ Register.byteNames ++ Register.wordNames := List.mem_append_right _ hname
    exact ⟨_, (registers_spec name hmem).2.1.symm,
      readsAs_register hmem (ofRegister?_wordNames name hname)⟩
  | @mnemonic name kind hname hjump =>
    have hread := readsAs_mnemonic loc hname
    rw [if_neg (not_or.mpr hjump)] at hread
    exact ⟨_, (mnemonics_spec _ hname).2.2.2, hread⟩
  | @jump kind hkind =>
    obtain ⟨name, hname⟩ : ∃ name, (name, kind) ∈ mnemonics := by
      rcases hkind with rfl | rfl
      · exact ⟨Bytes.ofString "jz", by decide⟩
      · exact ⟨Bytes.ofString "jmp", by decide⟩
    have hread := readsAs_mnemonic loc hname
    rw [if_pos hkind] at hread
    refine ⟨kind.name, ?_, hread⟩
    rcases hkind with rfl | rfl <;> rfl
  | @punctuation kind hkind =>
    have hall : ∀ kind ∈ symbols, surface (ofKind kind) = Bytes.ofChars kind.name := by decide
    exact ⟨kind.name, hall kind hkind, readsAs_punctuation hkind⟩

theorem kind_ne_openParen_of_written (h : Written loc t) : t.kind ≠ .openParen := by
  cases h with
  | mnemonic hname hjump =>
    have hall : ∀ e ∈ mnemonics, e.2 ≠ .openParen := by decide
    exact hall _ hname
  | jump hkind => rcases hkind with rfl | rfl <;> exact TokenKind.noConfusion
  | punctuation hkind =>
    have hall : ∀ kind ∈ symbols, kind ≠ .openParen := by decide
    exact hall _ hkind
  | _ => exact TokenKind.noConfusion

theorem fold_eq_self {tokens : List Token} (h : ∀ t ∈ tokens, t.kind ≠ .openParen) :
    fold tokens = .ok tokens := by
  simp only [fold, firstGroup_eq_none h]

/-- The scanner reads the tokens of a line behind those that it has seen. -/
theorem scanOnto_rendered {tokens seen : List Token} (hwritten : ∀ t ∈ tokens, Written loc t)
    (hsigns : tokens.IsChain MayFollow)
    (hfollow : ∀ u ∈ seen.head?, ∀ t ∈ tokens.head?, MayFollow u t) :
    scanOnto loc seen 0 (Text.Utf8.decode (rendered tokens)) = .ok (seen.reverse ++ tokens) := by
  induction tokens generalizing seen with
  | nil => rw [List.append_nil]; rfl
  | cons t tokens ih =>
    obtain ⟨cs, hcs, hreads⟩ := readsAs_of_written (hwritten t List.mem_cons_self)
    have hbehind : ∀ u ∈ seen.head?, MayFollow u t := fun u hu => hfollow u hu t rfl
    cases tokens with
    | nil =>
      have hline : Text.Utf8.decode (rendered [t]) = cs ++ [] := by
        rw [← Text.Utf8.decode_nil, ← Text.Utf8.decode_ofChars_append, ← hcs, List.append_nil,
          rendered, List.map_singleton, List.intercalate_singleton]
      rw [hline, hreads seen [] separated_nil hbehind, scanOnto, List.reverse_cons]
    | cons u tokens =>
      obtain ⟨hstep, hsigns'⟩ := List.isChain_cons_cons.mp hsigns
      have hline : Text.Utf8.decode (rendered (t :: u :: tokens)) =
          cs ++ ' ' :: Text.Utf8.decode (rendered (u :: tokens)) := by
        rw [← Text.Utf8.decode_utf8EncodeChar_append, ← Text.Utf8.decode_ofChars_append, ← hcs,
          rendered, List.map_cons, List.map_cons, List.intercalate_cons_cons, List.append_assoc]
        rfl
      have hnext : ∀ v ∈ (t :: seen).head?, ∀ w ∈ (u :: tokens).head?, MayFollow v w := by
        rintro v ⟨⟩ w ⟨⟩
        exact hstep
      rw [hline, hreads seen _ (separated_space _) hbehind]
      show scanOnto loc (t :: seen) 0 (Text.Utf8.decode (rendered (u :: tokens))) = _
      rw [ih (fun v hv => hwritten v (List.mem_cons_of_mem t hv)) hsigns' hnext, List.reverse_cons,
        List.append_assoc, List.singleton_append]

/-- **What is written is read back.**  A line that is written from tokens with a source form, in
which no number with a minus sign stands directly behind an operand, is read as these tokens. -/
theorem ofLine_rendered (loc : Location) (tokens : List Token)
    (hwritten : ∀ t ∈ tokens, Written loc t) (hsigns : tokens.IsChain MayFollow) :
    ofLine loc (rendered tokens) = .ok tokens := by
  have hscan : scan loc (Text.Utf8.decode (rendered tokens)) = .ok tokens :=
    scanOnto_rendered hwritten hsigns (by rintro u ⟨⟩)
  have hfold : fold tokens = .ok tokens :=
    fold_eq_self fun t ht => kind_ne_openParen_of_written (hwritten t ht)
  rw [ofLine, hscan]
  exact hfold

/-- A line with a sign behind an operator, and with a blank, a comment sign, a dollar and a letter
outside ASCII in a string. -/
theorem ofLine_rendered_line :
    let tokens := [label (Bytes.ofString "línea"), ofKind .times, number 3, ofKind .minus,
      number (-2147483647), string (Bytes.ofString "é; $"), byte 0x0A,
      { kind := .register16, text := Bytes.ofString "ax" }, reference (Bytes.ofString "Mov_1"),
      jump .jmp 0x7C05]
    rendered tokens =
      Bytes.ofString "línea: times 3 - -2147483647 \"é; $\" 0x0a ax Mov_1 jmp" ∧
    ofLine ⟨0x7C00, 0x7C05⟩ (rendered tokens) = .ok tokens := by
  intro tokens
  have htimes : (Bytes.ofString "times", TokenKind.times) ∈ mnemonics := by decide
  refine ⟨by decide +kernel, ofLine_rendered _ tokens ?_ ?_⟩
  · simp only [tokens, List.forall_mem_cons, List.not_mem_nil, false_implies, implies_true]
    exact ⟨.label (by decide +kernel), .mnemonic htimes (by decide), .number (by decide),
      .punctuation (by decide), .number (by decide), .string (by decide), .byte _,
      .register16 (by decide), .reference (by decide) (by decide), .jump (by decide), trivial⟩
  · decide

end BootSector.Token
