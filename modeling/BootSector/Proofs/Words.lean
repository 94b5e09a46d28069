import BootSector.Proofs.Rendering

/-!
# What words stand for

A word that starts with a digit is a literal, any other word is a name.  Which token a word stands
for is said here without a word about how it is looked up: `Literal word t` by the digits of the
word and their number, `Naming loc word t` by the tables of mnemonics and registers.  Both relations
are functions on the words that they relate, and those that the scanner uses
(`ofLiteral_eq_ok_iff`, `ofName_eq_iff`), with the colon behind a word taken into account
(`ofWord_colon_eq_ok_iff`, `ofWord_eq_ok_iff`).
-/

namespace BootSector

/-! ### Digits -/

namespace Text

variable {base n : Nat} {c : Char} {cs : List Char}

/-- A string of digits has a value if each of its characters is a digit of the base. -/
theorem isSome_digitsOnto? (base high : Nat) (cs : List Char) :
    (digitsOnto? base high cs).isSome = cs.all fun c => (digitOf? base c).isSome := by
  induction cs generalizing high with
  | nil => rfl
  | cons c cs ih =>
    rw [digitsOnto?, List.all_cons]
    cases digitOf? base c with
    | none => rfl
    | some d => exact ih _

theorem digitOf?_eq_some_iff {d : Nat} :
    digitOf? base c = some d ↔ digitValue? c = some d ∧ d < base := by
  rw [digitOf?, Option.filter_eq_some_iff, decide_eq_true_eq]

/-- The characters with a value are digits and letters, and letters count from ten. -/
theorem digitValue?_cases {d : Nat} (h : digitValue? c = some d) :
    (c.isDigit = true ∧ 48 ≤ c.toNat ∧ c.toNat ≤ 57 ∧ d = c.toNat - 48) ∨
      (97 ≤ c.toNat ∧ d = c.toNat - 87) ∨ (65 ≤ c.toNat ∧ d = c.toNat - 55) := by
  unfold digitValue? at h
  split_ifs at h with hdigit hlower hupper <;> obtain rfl := Option.some.inj h
  · have hfirst : '0'.val ≤ c.val := of_decide_eq_true (Bool.and_eq_true_iff.mp hdigit).1
    exact .inl ⟨hdigit, UInt32.le_iff_toNat_le.mp hfirst, toNat_le_of_isDigit hdigit, rfl⟩
  · have hfirst : 'a'.val ≤ c.val := of_decide_eq_true (Bool.and_eq_true_iff.mp hlower).1
    exact .inr (.inl ⟨UInt32.le_iff_toNat_le.mp hfirst, rfl⟩)
  · have hfirst : 'A'.val ≤ c.val := (of_decide_eq_true hupper).1
    exact .inr (.inr ⟨UInt32.le_iff_toNat_le.mp hfirst, rfl⟩)

/-- The binary digits. -/
theorem isSome_digitOf?_two (c : Char) : (digitOf? 2 c).isSome = (c == '0' || c == '1') := by
  rw [Bool.eq_iff_iff, Option.isSome_iff_exists, Bool.or_eq_true, beq_iff_eq, beq_iff_eq]
  constructor
  · rintro ⟨d, hd⟩
    obtain ⟨hvalue, hlt⟩ := digitOf?_eq_some_iff.mp hd
    have hcases : c.toNat = 48 ∨ c.toNat = 49 := by
      have hrange := digitValue?_cases hvalue
      omega
    rw [← Char.ofNat_toNat c]
    rcases hcases with hc | hc <;> rw [hc]
    · exact .inl rfl
    · exact .inr rfl
  · rintro (rfl | rfl)
    · exact ⟨0, rfl⟩
    · exact ⟨1, rfl⟩

/-- A decimal numeral has nothing but ASCII digits. -/
theorem isDigit_of_numeral? (h : numeral? 10 cs = some n) : ∀ c ∈ cs, c.isDigit = true := by
  intro c hc
  have hsome : (digitsOnto? 10 0 cs).isSome = true := by
    unfold numeral? at h
    split_ifs at h
    rw [h]
    rfl
  rw [isSome_digitsOnto?, List.all_eq_true] at hsome
  obtain ⟨d, hd⟩ := Option.isSome_iff_exists.mp (hsome c hc)
  obtain ⟨hvalue, hlt⟩ := digitOf?_eq_some_iff.mp hd
  exact ((digitValue?_cases hvalue).resolve_right (by omega)).1

end Text

namespace Token

variable {loc : Location} {word : List Char} {t : Token}

/-! ### Literals -/

/-- The word is a numeral: it starts with a digit, and more word characters may follow. -/
def IsNumeral (word : List Char) : Prop :=
  (∃ c ∈ word.head?, Text.isDigit c = true) ∧ ∀ c ∈ word, isWordChar c = true

/-- **The token of a literal.**  The letters in it may be of either case. -/
inductive Literal (word : List Char) : Token → Prop where
  /-- `0b` and eight binary digits are a byte. -/
  | binary {digits : List Char} {n : Nat} (hword : word.map Text.toLower = '0' :: 'b' :: digits)
    (hlength : digits.length = 8) (hn : Text.digitsOnto? 2 0 digits = some n) :
    Literal word (byte (UInt8.ofNat n))
  /-- `0x` and two hexadecimal digits are a byte. -/
  | hexByte {digits : List Char} {n : Nat} (hword : word.map Text.toLower = '0' :: 'x' :: digits)
    (hlength : digits.length = 2) (hn : Text.digitsOnto? 16 0 digits = some n) :
    Literal word (byte (UInt8.ofNat n))
  /-- `0x` and four hexadecimal digits are a number. -/
  | hexNumber {digits : List Char} {n : Nat}
    (hword : word.map Text.toLower = '0' :: 'x' :: digits)
    (hlength : digits.length = 4) (hn : Text.digitsOnto? 16 0 digits = some n) :
    Literal word (number (Int32.ofNat n))
  /-- Decimal digits are a number if their value is below 2³¹. -/
  | decimal {n : Nat} (hn : Text.numeral? 10 word = some n) (hlt : n < 0x80000000) :
    Literal word (number (Int32.ofNat n))

theorem literal_of_ofLiteral (h : ofLiteral word = .ok t) : Literal word t := by
  unfold ofLiteral at h
  split at h
  · rename_i digits hword
    unfold ofBinary at h
    split_ifs at h with hall hshort hlength
    obtain rfl := Except.ok.inj h
    simp only [← Text.isSome_digitOf?_two, ← Text.isSome_digitsOnto? 2 0] at hall
    obtain ⟨n, hn⟩ := Option.isSome_iff_exists.mp hall
    rw [hn]
    exact .binary hword hlength hn
  · rename_i digits hword
    unfold ofHex at h
    split at h
    · rename_i n hn
      split_ifs at h with htwo hfour <;> obtain rfl := Except.ok.inj h
      · exact .hexByte hword htwo hn
      · exact .hexNumber hword hfour hn
    · cases h
  · unfold ofDecimal at h
    split at h
    · rename_i n hn
      split_ifs at h with hlt
      obtain rfl := Except.ok.inj h
      exact .decimal hn hlt
    · cases h

theorem ofLiteral_of_literal (h : Literal word t) : ofLiteral word = .ok t := by
  cases h with
  | @binary digits n hword hlength hn =>
    have hall : digits.all (fun c => c == '0' || c == '1') = true := by
      simp only [← Text.isSome_digitOf?_two, ← Text.isSome_digitsOnto? 2 0, hn, Option.isSome_some]
    unfold ofLiteral
    rw [hword]
    show ofBinary digits = _
    rw [ofBinary, if_pos hall, if_neg (by omega), if_pos hlength, hn]
    rfl
  | @hexByte digits n hword hlength hn =>
    unfold ofLiteral
    rw [hword]
    show ofHex digits = _
    simp only [ofHex, hn]
    rw [if_pos hlength]
  | @hexNumber digits n hword hlength hn =>
    unfold ofLiteral
    rw [hword]
    show ofHex digits = _
    simp only [ofHex, hn]
    rw [if_neg (by omega), if_pos hlength]
  | @decimal n hn hlt =>
    rw [ofLiteral_of_asciiDigits (Text.isDigit_of_numeral? hn)]
    simp only [ofDecimal, hn, hlt, if_true]

/-- **Literals are read as they are written.** -/
theorem ofLiteral_eq_ok_iff : ofLiteral word = .ok t ↔ Literal word t :=
  ⟨literal_of_ofLiteral, ofLiteral_of_literal⟩

/-! ### Names -/

/-- **The token of a name** at a location.  Mnemonics and registers are known by their lower case,
and a name that is neither refers to a label as it is. -/
inductive Naming (loc : Location) (word : List Char) : Token → Prop where
  | directive {kind : TokenKind} (hkind : (Bytes.ofChars (word.map Text.toLower), kind) ∈ mnemonics)
    (hjump : kind ≠ .jz ∧ kind ≠ .jmp) : Naming loc word (ofKind kind)
  | jump {kind : TokenKind} (hkind : (Bytes.ofChars (word.map Text.toLower), kind) ∈ mnemonics)
    (hjump : kind = .jz ∨ kind = .jmp) : Naming loc word (jump kind loc.current)
  | register8 (hname : Bytes.ofChars (word.map Text.toLower) ∈ Register.byteNames) :
    Naming loc word { kind := .register8, text := Bytes.ofChars (word.map Text.toLower) }
  | register16 (hname : Bytes.ofChars (word.map Text.toLower) ∈ Register.wordNames) :
    Naming loc word { kind := .register16, text := Bytes.ofChars (word.map Text.toLower) }
  | reference (hfree : Bytes.ofChars (word.map Text.toLower) ∉ reserved) :
    Naming loc word (reference (Bytes.ofChars word))

/-- A mnemonic is read as its kind, and a jump also keeps the address. -/
theorem ofName_of_mem_mnemonics {kind : TokenKind}
    (hkind : (Bytes.ofChars (word.map Text.toLower), kind) ∈ mnemonics) :
    ofName loc word =
      if kind = .jz ∨ kind = .jmp then Token.jump kind loc.current else ofKind kind := by
  obtain ⟨-, -, hfind, -⟩ := mnemonics_spec _ hkind
  simp only [ofName, hfind]

/-- A register is read as the token of its name in lower case. -/
theorem ofName_of_mem_registers
    (hname : Bytes.ofChars (word.map Text.toLower) ∈ Register.byteNames ++ Register.wordNames)
    (ht : ofRegister? (Bytes.ofChars (word.map Text.toLower)) = some t) : ofName loc word = t := by
  obtain ⟨-, -, -, hnone⟩ := registers_spec _ hname
  simp only [ofName, hnone, ht, Option.getD_some]

theorem ofName_of_naming (h : Naming loc word t) : ofName loc word = t := by
  cases h with
  | directive hkind hjump => rw [ofName_of_mem_mnemonics hkind, if_neg (not_or.mpr hjump)]
  | jump hkind hjump => rw [ofName_of_mem_mnemonics hkind, if_pos hjump]
  | register8 hname =>
    exact ofName_of_mem_registers (List.mem_append_left _ hname) (ofRegister?_byteNames _ hname)
  | register16 hname =>
    exact ofName_of_mem_registers (List.mem_append_right _ hname) (ofRegister?_wordNames _ hname)
  | reference hfree => exact ofName_of_not_mem_reserved hfree

theorem naming_ofName (loc : Location) (word : List Char) : Naming loc word (ofName loc word) := by
  by_cases hreserved : Bytes.ofChars (word.map Text.toLower) ∈ reserved
  · rw [reserved, List.mem_append, List.mem_append] at hreserved
    rcases hreserved with (hmnemonic | hname) | hname
    · obtain ⟨⟨name, kind⟩, hkind, rfl⟩ := List.mem_map.mp hmnemonic
      by_cases hjump : kind = .jz ∨ kind = .jmp
      · rw [ofName_of_naming (.jump hkind hjump)]
        exact .jump hkind hjump
      · rw [ofName_of_naming (.directive hkind (not_or.mp hjump))]
        exact .directive hkind (not_or.mp hjump)
    · rw [ofName_of_naming (.register8 hname)]
      exact .register8 hname
    · rw [ofName_of_naming (.register16 hname)]
      exact .register16 hname
  · rw [ofName_of_naming (.reference hreserved)]
    exact .reference hreserved

/-- **Names are read as the tables say.** -/
theorem ofName_eq_iff : ofName loc word = t ↔ Naming loc word t := by
  constructor
  · rintro rfl
    exact naming_ofName loc word
  · exact ofName_of_naming

/-! ### Words -/

/-- With a colon behind it, a word is a label unless it starts with a digit. -/
theorem ofWord_colon_eq_ok_iff {c : Char} {cs : List Char} : ofWord loc (c :: cs) true = .ok t ↔
    Text.isDigit c = false ∧ label (Bytes.ofChars (c :: cs)) = t := by
  cases hdigit : Text.isDigit c <;> simp [ofWord, hdigit]

/-- Without a colon, the first character decides between literals and names. -/
theorem ofWord_eq_ok_iff {c : Char} {cs : List Char} : ofWord loc (c :: cs) false = .ok t ↔
    Text.isDigit c = true ∧ Literal (c :: cs) t ∨
      Text.isDigit c = false ∧ Naming loc (c :: cs) t := by
  cases hdigit : Text.isDigit c <;> simp [ofWord, hdigit, ofLiteral_eq_ok_iff, ofName_eq_iff]

end Token

end BootSector
