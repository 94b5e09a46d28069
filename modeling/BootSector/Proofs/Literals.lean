import BootSector.Proofs.Infix
import BootSector.Proofs.Rendering

/-!
# Decimal literals

A line that is nothing but a literal, with a minus sign in front of it or without, is read as the
token of that literal (`ofLine_literal`, `ofLine_minus_literal`).  For decimal literals this tells
which numbers a line can name (`DecimalLiteral.ofLine_text`).  The value of the digits has to be
below 2³¹ before the sign is applied, so the range is symmetric: the least 32-bit number has no
literal, although it is shown like any other number and comes out of arithmetic.
-/

namespace BootSector

namespace Token

variable {loc : Location} {c : Char} {cs : List Char}

/-! ### Lines with a single literal -/

/-- A lexeme that takes the whole line and is a value is the only token of the line. -/
theorem ofLine_of_lexeme {r : Except Fault Token}
    (hlexeme : lexeme loc none c cs = r.map fun t => (some t, cs.length))
    (hvalue : ∀ t, r = .ok t → t.isValue = true) :
    ofLine loc (Bytes.ofChars (c :: cs)) = r.map ([·]) := by
  rw [ofLine, Text.Utf8.decode_ofChars, scan]
  cases r with
  | error e =>
    rw [scanOnto, List.head?_nil, hlexeme]
    rfl
  | ok t =>
    have hscan : scanOnto loc [] 0 (c :: cs) = .ok [t] := by
      rw [scanOnto_of_lexeme hlexeme, List.drop_length]
      rfl
    rw [hscan]
    apply fold_eq_self
    rw [List.forall_mem_singleton]
    exact kind_ne_openParen_of_isValue (hvalue t rfl)

theorem frontWord_of_forall {word : List Char} (hword : ∀ d ∈ word, isWordChar d = true) :
    frontWord word = (word, false) := by
  rw [← List.append_nil word, frontWord_append_separated hword separated_nil, List.append_nil]

/-- A literal on a line of its own is read as its token. -/
theorem ofLine_literal (hdigit : Text.isDigit c = true)
    (hword : ∀ d ∈ c :: cs, isWordChar d = true) :
    ofLine loc (Bytes.ofChars (c :: cs)) = (ofLiteral (c :: cs)).map ([·]) := by
  apply ofLine_of_lexeme
  · rw [lexeme_eq_map_ofWord (hword c List.mem_cons_self) (frontWord_of_forall hword),
      ofWord_of_isDigit hdigit]
    rfl
  · intro t ht
    exact isValue_of_ofLiteral ht

/-- A literal behind a minus sign, at the start of a line, is read as a number with that sign. -/
theorem ofLine_minus_literal (hdigit : Text.isDigit c = true)
    (hword : ∀ d ∈ c :: cs, isWordChar d = true) :
    ofLine loc (Bytes.ofChars ('-' :: c :: cs)) =
      (ofLiteral (c :: cs)).map fun t => [number (-t.value)] := by
  have hsign : isSign none (c :: cs) = true := by
    rw [isSign, List.head?_cons, Option.any_some, hdigit]
    rfl
  have hlexeme : lexeme loc none '-' (c :: cs) =
      ((ofLiteral (c :: cs)).map fun t => number (-t.value)).map fun t =>
        (some t, (c :: cs).length) := by
    rw [lexeme_of_isSign hsign (frontWord_of_forall hword), ofWord_of_isDigit hdigit]
    cases ofLiteral (c :: cs) <;> rfl
  rw [ofLine_of_lexeme hlexeme]
  · cases ofLiteral (c :: cs) <;> rfl
  · intro t ht
    cases hliteral : ofLiteral (c :: cs) with
    | error e =>
      rw [hliteral] at ht
      cases ht
    | ok u =>
      rw [hliteral] at ht
      obtain rfl := Except.ok.inj ht
      rfl

end Token

/-! ### Decimal literals -/

/-- **A decimal literal**: decimal digits, of any number and with leading zeros or not, perhaps
behind a minus sign. -/
structure DecimalLiteral where
  /-- Is there a minus sign? -/
  negative : Bool
  /-- The digits. -/
  digits : List Char
  digits_ne_nil : digits ≠ []
  isDigit_of_mem : ∀ c ∈ digits, c.isDigit = true

namespace DecimalLiteral

open Token

variable {loc : Location}

/-- The characters of the literal. -/
def text (l : DecimalLiteral) : List Char := if l.negative then '-' :: l.digits else l.digits

/-- The number that the digits denote. -/
def magnitude (l : DecimalLiteral) : Nat := Nat.ofDigitChars 10 l.digits 0

/-- The integer that the literal denotes. -/
def value (l : DecimalLiteral) : Int := if l.negative then -l.magnitude else l.magnitude

/-- The literal as which an integer is shown. -/
def ofInt (n : Int) : DecimalLiteral where
  negative := decide (n < 0)
  digits := Text.decimal n.natAbs
  digits_ne_nil := Text.decimal_ne_nil _
  isDigit_of_mem _ hc := Text.isDigit_of_mem_decimal hc

@[simp] theorem magnitude_ofInt (n : Int) : (ofInt n).magnitude = n.natAbs :=
  Text.ofDigitChars_decimal n.natAbs

theorem value_ofInt (n : Int) : (ofInt n).value = n := by
  rw [value, magnitude_ofInt]
  show (if decide (n < 0) then -(n.natAbs : Int) else n.natAbs) = n
  by_cases hn : n < 0
  · rw [if_pos (decide_eq_true hn)]
    omega
  · rw [if_neg (by simpa using hn)]
    omega

theorem text_ofInt (n : Int) : (ofInt n).text = Text.signedDecimal n := by
  rw [text, Text.signedDecimal]
  show (if decide (n < 0) then _ else _) = _
  simp only [decide_eq_true_eq]
  rfl

/-- **What a line with a decimal literal is read as**: the number that the literal denotes, if its
digits alone are below 2³¹. -/
theorem ofLine_text (l : DecimalLiteral) :
    ofLine loc (Bytes.ofChars l.text) =
      if l.magnitude < 2147483648 then .ok [number (Int32.ofInt l.value)]
      else .error (.notNumber (Bytes.ofChars l.digits)) := by
  obtain ⟨negative, digits, hne, hdigits⟩ := l
  obtain ⟨c, cs, rfl⟩ := List.exists_cons_of_ne_nil hne
  have hdigit : Text.isDigit c = true := isDigit_of_asciiDigit (hdigits c List.mem_cons_self)
  have hword : ∀ d ∈ c :: cs, isWordChar d = true := fun d hd =>
    isWordChar_of_asciiDigit (hdigits d hd)
  have hliteral := ofWord_of_asciiDigits loc hne hdigits
  rw [ofWord_of_isDigit hdigit] at hliteral
  set n := Nat.ofDigitChars 10 (c :: cs) 0
  show _ = if n < 2147483648 then _ else _
  cases negative with
  | false =>
    show ofLine loc (Bytes.ofChars (c :: cs)) = _
    rw [ofLine_literal hdigit hword, hliteral]
    split
    · show Except.ok [number (Int32.ofNat n)] = .ok [number (Int32.ofInt n)]
      rw [Int32.ofInt_eq_ofNat]
    · rfl
  | true =>
    show ofLine loc (Bytes.ofChars ('-' :: c :: cs)) = _
    rw [ofLine_minus_literal hdigit hword, hliteral]
    split
    · show Except.ok [number (-Int32.ofNat n)] = .ok [number (Int32.ofInt (-n))]
      rw [Int32.ofInt_neg, Int32.ofInt_eq_ofNat]
    · rfl

theorem natAbs_value (l : DecimalLiteral) : l.value.natAbs = l.magnitude := by
  rw [value]
  split
  · rw [Int.natAbs_neg, Int.natAbs_natCast]
  · rw [Int.natAbs_natCast]

end DecimalLiteral

open Token in
/-- **The range of decimal literals.**  A line with a decimal literal is read as the number that the
literal denotes, if this is a 32-bit number other than the least one; all other literals are refused
by their digits.  So every 32-bit number but the least is read back from the way it is shown. -/
theorem decimal_range_exact (loc : Location) :
    (∀ l : DecimalLiteral,
      (-2147483648 < l.value ∧ l.value ≤ 2147483647 →
        ∃ v : Int32, v.toInt = l.value ∧ ofLine loc (Bytes.ofChars l.text) = .ok [number v]) ∧
      (l.value ≤ -2147483648 ∨ 2147483647 < l.value →
        ofLine loc (Bytes.ofChars l.text) = .error (.notNumber (Bytes.ofChars l.digits)))) ∧
    ∀ v : Int32, ofLine loc (number v).write =
      if v = Int32.minValue then .error (.notNumber (Bytes.ofString "2147483648"))
      else .ok [number v] := by
  refine ⟨fun l => ⟨?_, ?_⟩, ?_⟩
  · rintro ⟨hlow, hhigh⟩
    have hmagnitude : l.magnitude < 2147483648 := by
      have habs := l.natAbs_value
      omega
    refine ⟨Int32.ofInt l.value, Int32.toInt_ofInt_of_le (by omega) (by omega), ?_⟩
    rw [l.ofLine_text, if_pos hmagnitude]
  · intro hout
    have hmagnitude : ¬ l.magnitude < 2147483648 := by
      have habs := l.natAbs_value
      omega
    rw [l.ofLine_text, if_neg hmagnitude]
  · intro v
    have hwrite : (number v).write = Bytes.ofChars (DecimalLiteral.ofInt v.toInt).text := by
      rw [DecimalLiteral.text_ofInt]
      rfl
    have hle := v.le_toInt
    have hlt := v.toInt_lt
    rw [hwrite, DecimalLiteral.ofLine_text, DecimalLiteral.magnitude_ofInt,
      DecimalLiteral.value_ofInt, Int32.ofInt_toInt]
    by_cases hv : v = Int32.minValue
    · subst hv
      rfl
    · have hne : v.toInt ≠ -2147483648 := fun h => hv (Int32.toInt_inj.mp h)
      rw [if_pos (by omega), if_neg hv]

open Token in
/-- A literal with leading zeros at the low end of the range, and one just above the high end. -/
theorem decimal_range_at_ends :
    let low : DecimalLiteral :=
      ⟨true, "0002147483647".toList, by decide, List.all_eq_true.mp (by decide)⟩
    let above : DecimalLiteral :=
      ⟨false, "2147483648".toList, by decide, List.all_eq_true.mp (by decide)⟩
    low.value = -2147483647 ∧ above.value = 2147483648 ∧
      (∃ v : Int32, v.toInt = -2147483647 ∧
        ofLine ⟨0x7C00, 0x7C05⟩ (Bytes.ofString "-0002147483647") = .ok [number v]) ∧
      ofLine ⟨0x7C00, 0x7C05⟩ (Bytes.ofString "2147483648") =
        .error (.notNumber (Bytes.ofString "2147483648")) := by
  intro low above
  have hlow : low.value = -2147483647 := by decide
  have habove : above.value = 2147483648 := by decide
  have hrange := (decimal_range_exact ⟨0x7C00, 0x7C05⟩).1
  refine ⟨hlow, habove, ?_, (hrange above).2 (by omega)⟩
  rw [← hlow]
  exact (hrange low).1 (by omega)

open Token in
/-- The least 32-bit number comes out of arithmetic, and it is shown by a decimal literal that
denotes it, but this literal is refused. -/
theorem least_number_refused :
    let least : DecimalLiteral :=
      ⟨true, "2147483648".toList, by decide, List.all_eq_true.mp (by decide)⟩
    least.value = -2147483648 ∧ Bytes.ofChars least.text = Bytes.ofString "-2147483648" ∧
      (number Int32.minValue).write = Bytes.ofChars least.text ∧
      ofLine ⟨0, 0⟩ (Bytes.ofString "(-2147483647 - 1)") = .ok [number Int32.minValue] ∧
      ofLine ⟨0, 0⟩ (Bytes.ofChars least.text) =
        .error (.notNumber (Bytes.ofString "2147483648")) := by
  exact ⟨by decide, by decide, by decide, by decide +kernel, by decide +kernel⟩

end BootSector
