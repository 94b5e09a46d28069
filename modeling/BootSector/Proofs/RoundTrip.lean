import BootSector.Text.Numeral
import BootSector.Text.Utf8

/-!
# Reading back what is written

Characters that are written in UTF-8 are read back one by one, whatever bytes follow
(`decode_ofChars_append`), and the digits of a numeral are read back as its value: decimal numerals
of any length (`numeral?_of_isDigit`), hexadecimal ones of two digits (`digitsOnto?_fixedHex_two`).
-/

namespace BootSector.Text

/-! ### Characters -/

namespace Utf8

variable {b b₁ b₂ b₃ : UInt8} {t₁ t₂ t₃ : Nat} {bs : Bytes}

theorem lead?_one (hb : b.toNat < 0x80) : lead? b bs = (scalar? 0 b.toNat).map (·, 0) := by
  unfold lead?
  exact if_pos hb

theorem lead?_two (hb : 0xC0 ≤ b.toNat ∧ b.toNat < 0xE0) (h₁ : tail? b₁ = some t₁) :
    lead? b (b₁ :: bs) = (scalar? 0x80 ((b.toNat - 0xC0) * 64 + t₁)).map (·, 1) := by
  unfold lead?
  simp only [h₁]
  rw [if_neg (by omega), if_neg (by omega), if_pos hb.2]
  rfl

theorem lead?_three (hb : 0xE0 ≤ b.toNat ∧ b.toNat < 0xF0) (h₁ : tail? b₁ = some t₁)
    (h₂ : tail? b₂ = some t₂) :
    lead? b (b₁ :: b₂ :: bs) =
      (scalar? 0x800 (((b.toNat - 0xE0) * 64 + t₁) * 64 + t₂)).map (·, 2) := by
  unfold lead?
  simp only [h₁, h₂]
  rw [if_neg (by omega), if_neg (by omega), if_neg (by omega), if_pos hb.2]
  rfl

theorem lead?_four (hb : 0xF0 ≤ b.toNat ∧ b.toNat < 0xF8) (h₁ : tail? b₁ = some t₁)
    (h₂ : tail? b₂ = some t₂) (h₃ : tail? b₃ = some t₃) :
    lead? b (b₁ :: b₂ :: b₃ :: bs) =
      (scalar? 0x10000 ((((b.toNat - 0xF0) * 64 + t₁) * 64 + t₂) * 64 + t₃)).map (·, 3) := by
  unfold lead?
  simp only [h₁, h₂, h₃]
  rw [if_neg (by omega), if_neg (by omega), if_neg (by omega), if_neg (by omega), if_pos hb.2]
  rfl

theorem scalar?_toNat (c : Char) {least n : Nat} (hn : n = c.toNat) (h : least ≤ c.toNat) :
    scalar? least n = some c := by
  have hvalid : c.toNat.isValidChar := c.valid
  rw [hn, scalar?, dif_pos hvalid, if_pos h]
  rfl

theorem toNat_lt (c : Char) : c.toNat < 0x110000 := by
  have hvalid : c.toNat.isValidChar := c.valid
  rcases hvalid with h | h <;> omega

theorem toNat_ofNat_of_lt {n : Nat} (h : n < 256) : (UInt8.ofNat n).toNat = n :=
  UInt8.toNat_ofNat_of_lt' h

theorem tail?_ofNat (n : Nat) : tail? (UInt8.ofNat (n % 64 + 128)) = some (n % 64) := by
  rw [tail?, toNat_ofNat_of_lt (by omega), if_pos (by omega), Nat.add_sub_cancel]

/-- The first byte of a character tells how many bytes follow, and they give the character back. -/
theorem exists_lead?_utf8EncodeChar (c : Char) (bs : Bytes) : ∃ b tail,
    String.utf8EncodeChar c = b :: tail ∧ lead? b (tail ++ bs) = some (c, tail.length) := by
  have hlt := toNat_lt c
  have hval : c.val.toNat = c.toNat := rfl
  simp only [String.utf8EncodeChar.eq_def, hval]
  by_cases hone : c.toNat ≤ 127
  · rw [if_pos hone]
    refine ⟨_, _, rfl, ?_⟩
    have hb : (UInt8.ofNat c.toNat).toNat = c.toNat := toNat_ofNat_of_lt (by omega)
    rw [lead?_one (by omega), scalar?_toNat c hb (by omega)]
    rfl
  rw [if_neg hone]
  by_cases htwo : c.toNat ≤ 2047
  · rw [if_pos htwo]
    refine ⟨_, _, rfl, ?_⟩
    have hb := toNat_ofNat_of_lt (n := c.toNat / 64 % 32 + 192) (by omega)
    rw [List.cons_append, lead?_two (by omega) (tail?_ofNat _),
      scalar?_toNat c (by omega) (by omega)]
    rfl
  rw [if_neg htwo]
  by_cases hthree : c.toNat ≤ 65535
  · rw [if_pos hthree]
    refine ⟨_, _, rfl, ?_⟩
    have hb := toNat_ofNat_of_lt (n := c.toNat / 4096 % 16 + 224) (by omega)
    rw [List.cons_append, List.cons_append, lead?_three (by omega) (tail?_ofNat _) (tail?_ofNat _),
      scalar?_toNat c (by omega) (by omega)]
    rfl
  · rw [if_neg hthree]
    refine ⟨_, _, rfl, ?_⟩
    have hb := toNat_ofNat_of_lt (n := c.toNat / 262144 % 8 + 240) (by omega)
    rw [List.cons_append, List.cons_append, List.cons_append,
      lead?_four (by omega) (tail?_ofNat _) (tail?_ofNat _) (tail?_ofNat _),
      scalar?_toNat c (by omega) (by omega)]
    rfl

theorem decode_utf8EncodeChar_append (c : Char) (bs : Bytes) :
    decode (String.utf8EncodeChar c ++ bs) = c :: decode bs := by
  obtain ⟨b, tail, hencode, hlead⟩ := exists_lead?_utf8EncodeChar c bs
  have hfirst : first b (tail ++ bs) = (.char c, tail.length) := by rw [first, hlead]
  rw [hencode, List.cons_append, decode_cons, hfirst, List.drop_left]
  rfl

/-- **Characters are read back from their bytes**, in front of any other bytes. -/
theorem decode_ofChars_append (cs : List Char) (bs : Bytes) :
    decode (Bytes.ofChars cs ++ bs) = cs ++ decode bs := by
  induction cs with
  | nil => rfl
  | cons c cs ih =>
    rw [Bytes.ofChars_cons, List.append_assoc, decode_utf8EncodeChar_append, ih, List.cons_append]

theorem decode_ofChars (cs : List Char) : decode (Bytes.ofChars cs) = cs := by
  rw [← List.append_nil (Bytes.ofChars cs), decode_ofChars_append, decode_nil, List.append_nil]

end Utf8

/-! ### Numerals -/

theorem toNat_le_of_isDigit {c : Char} (h : c.isDigit = true) : c.toNat ≤ 57 := by
  simp only [Char.isDigit, Bool.and_eq_true, decide_eq_true_eq] at h
  exact h.2

theorem digitOf?_of_isDigit {c : Char} (h : c.isDigit = true) :
    digitOf? 10 c = some (c.toNat - '0'.toNat) := by
  have hle := toNat_le_of_isDigit h
  rw [digitOf?, digitValue?, if_pos h]
  exact Option.filter_some_pos (decide_eq_true (show c.toNat - 48 < 10 by omega))

theorem digitsOnto?_of_isDigit {cs : List Char} (h : ∀ c ∈ cs, c.isDigit = true) (high : Nat) :
    digitsOnto? 10 high cs = some (Nat.ofDigitChars 10 cs high) := by
  induction cs generalizing high with
  | nil => rfl
  | cons c cs ih =>
    have hc := digitOf?_of_isDigit (h c List.mem_cons_self)
    simp only [digitsOnto?, hc]
    rw [ih fun d hd => h d (List.mem_cons_of_mem c hd), Nat.ofDigitChars_cons, Nat.mul_comm]

theorem isDigit_of_mem_decimal {n : Nat} {c : Char} (h : c ∈ decimal n) : c.isDigit = true :=
  Nat.isDigit_of_mem_toDigits (by decide) (by decide) h

theorem decimal_ne_nil (n : Nat) : decimal n ≠ [] := Nat.toDigits_ne_nil

theorem ofDigitChars_decimal (n : Nat) : Nat.ofDigitChars 10 (decimal n) 0 = n := by
  rw [decimal, Nat.ofDigitChars_ten_toDigits]

/-- **Decimal digits are read as their value.** -/
theorem numeral?_of_isDigit {cs : List Char} (hne : cs ≠ []) (h : ∀ c ∈ cs, c.isDigit = true) :
    numeral? 10 cs = some (Nat.ofDigitChars 10 cs 0) := by
  have hempty : cs.isEmpty = false := List.isEmpty_eq_false_iff.mpr hne
  rw [numeral?, hempty, if_neg Bool.false_ne_true, digitsOnto?_of_isDigit h]

theorem digitOf?_lowerHexDigit : ∀ d < 16, digitOf? 16 (lowerHexDigit d) = some d := by
  decide

theorem digitsOnto?_fixedHex_two {n : Nat} (h : n < 256) :
    digitsOnto? 16 0 (fixedHex lowerHexDigit 2 n) = some n := by
  have hhigh : digitOf? 16 (lowerHexDigit (n / Nat.pow 16 1 % 16)) = some (n / 16) := by
    have hmod : n / Nat.pow 16 1 % 16 = n / 16 := by
      show n / 16 % 16 = n / 16
      omega
    rw [hmod]
    exact digitOf?_lowerHexDigit _ (by omega)
  have hlow : digitOf? 16 (lowerHexDigit (n / Nat.pow 16 0 % 16)) = some (n % 16) := by
    have hmod : n / Nat.pow 16 0 % 16 = n % 16 := by
      show n / 1 % 16 = n % 16
      rw [Nat.div_one]
    rw [hmod]
    exact digitOf?_lowerHexDigit _ (by omega)
  simp only [fixedHex, digitsOnto?, hhigh, hlow]
  congr 1
  omega

end BootSector.Text
