import BootSector.Proofs.Literals
import BootSector.Proofs.Words
import Mathlib.Data.Nat.Digits.Defs

/-!
# Binary and hexadecimal literals

A word that starts with `0b` or `0x` is a literal, whatever letters and digits follow.  The word is
brought to lower case before its digits are read, by a mapping that takes two letters outside ASCII
to ASCII ones.  Neither of these is a hexadecimal digit: beyond ASCII, no lower case is at or below
`f` (`lt_lowerIn`).  So the digits are those that were written, in either case
(`digitOf?_toLower`), and their value is the number that they denote in the base of the literal,
with the first digit as the highest (`numeralValue`).

`radix_literals_exact` tells for all words which of them are bytes or numbers, and which fault the
others are refused with.
-/

namespace BootSector

namespace Text

variable {base : Nat} {c : Char} {cs : List Char}

/-! ### Digits -/

/-- The binary digits. -/
def binaryDigits : List Char := ['0', '1']

/-- The hexadecimal digits, with letters of either case. -/
def hexDigits : List Char :=
  ['0', '1', '2', '3', '4', '5', '6', '7', '8', '9', 'a', 'b', 'c', 'd', 'e', 'f',
   'A', 'B', 'C', 'D', 'E', 'F']

/-- The number that a digit stands for: the place of its lower case among the digits. -/
def digitPlace (c : Char) : Nat := hexDigits.idxOf c.toLower

/-- **The number that digits denote** in a base, the first one being the highest. -/
def numeralValue (base : Nat) (cs : List Char) : Nat :=
  Nat.ofDigits base (cs.map digitPlace).reverse

theorem numeralValue_cons (base : Nat) (c : Char) (cs : List Char) :
    numeralValue base (c :: cs) = digitPlace c * base ^ cs.length + numeralValue base cs := by
  rw [numeralValue, List.map_cons, List.reverse_cons, Nat.ofDigits_append, Nat.ofDigits_singleton,
    List.length_reverse, List.length_map, Nat.add_comm, Nat.mul_comm]
  rfl

/-- A hexadecimal digit lies between `0` and `f`. -/
theorem bounds_of_digitOf?_sixteen {d : Nat} (h : digitOf? 16 c = some d) :
    48 ≤ c.toNat ∧ c.toNat ≤ 102 := by
  obtain ⟨hvalue, hlt⟩ := digitOf?_eq_some_iff.mp h
  have hrange := digitValue?_cases hvalue
  omega

theorem digitOf?_sixteen_eq_none (h : ¬ (48 ≤ c.toNat ∧ c.toNat ≤ 102)) : digitOf? 16 c = none := by
  rw [Option.eq_none_iff_forall_ne_some]
  intro d hd
  exact h (bounds_of_digitOf?_sixteen hd)

/-- What holds for the ASCII characters, checked one by one. -/
theorem digitOf?_sixteen_ascii : ∀ n < 128, digitOf? 16 (Char.ofNat n).toLower =
      digitOf? 16 (Char.ofNat n) ∧
    digitOf? 16 (Char.ofNat n) =
      if Char.ofNat n ∈ hexDigits then some (digitPlace (Char.ofNat n)) else none := by
  decide +kernel

/-- **The hexadecimal digits and their values.** -/
theorem digitOf?_sixteen (c : Char) :
    digitOf? 16 c = if c ∈ hexDigits then some (digitPlace c) else none := by
  by_cases hascii : c.toNat < 128
  · rw [← Char.ofNat_toNat c]
    exact (digitOf?_sixteen_ascii c.toNat hascii).2
  · have hlist : hexDigits.all (fun d => d.toNat < 128) = true := by decide
    have hc : c ∉ hexDigits := by
      intro hc
      exact hascii (of_decide_eq_true (List.all_eq_true.mp hlist c hc))
    rw [if_neg hc, digitOf?_sixteen_eq_none (by omega)]

/-- The binary digits and their values. -/
theorem digitOf?_two (c : Char) :
    digitOf? 2 c = if c ∈ binaryDigits then some (digitPlace c) else none := by
  have hsome := isSome_digitOf?_two c
  by_cases hc : c ∈ binaryDigits
  · rw [if_pos hc]
    rw [binaryDigits, List.mem_cons, List.mem_singleton] at hc
    rcases hc with rfl | rfl <;> rfl
  · rw [if_neg hc, ← Option.not_isSome_iff_eq_none, hsome]
    simpa [binaryDigits] using hc

/-! ### Lower case -/

/-- Beyond ASCII, every lower case lies above `f`. -/
theorem lt_lowerIn {runs : List CaseRun} (hruns : ∀ r ∈ runs, 102 < r.lower) {n : Nat}
    (hn : 102 < n) : 102 < lowerIn runs n := by
  induction runs with
  | nil => exact hn
  | cons r runs ih =>
    have hr := hruns r List.mem_cons_self
    rw [lowerIn]
    split_ifs
    · exact hn
    · omega
    · exact hn
    · exact ih fun r' hr' => hruns r' (List.mem_cons_of_mem r hr')

theorem toNat_ofNat (n : Nat) : (Char.ofNat n).toNat = n ∨ (Char.ofNat n).toNat = 0 := by
  by_cases hvalid : n.isValidChar
  · rw [Char.ofNat, dif_pos hvalid]
    exact .inl rfl
  · rw [Char.ofNat, dif_neg hvalid]
    exact .inr rfl

/-- **A hexadecimal digit is one in lower case too**, and no other character becomes one. -/
theorem digitOf?_sixteen_toLower (c : Char) : digitOf? 16 (toLower c) = digitOf? 16 c := by
  by_cases hascii : c.toNat < 128
  · rw [toLower, if_pos hascii, ← Char.ofNat_toNat c]
    exact (digitOf?_sixteen_ascii c.toNat hascii).1
  · -- beyond ASCII there is no digit on either side
    have hruns : ∀ r ∈ caseRuns, 102 < r.lower := by decide +kernel
    have hlower : 102 < lowerIn caseRuns c.toNat := lt_lowerIn hruns (by omega)
    have hchar := toNat_ofNat (lowerIn caseRuns c.toNat)
    rw [toLower, if_neg hascii, digitOf?_sixteen_eq_none (c := c) (by omega)]
    exact digitOf?_sixteen_eq_none (by omega)

theorem digitOf?_toLower (hbase : base ≤ 16) (c : Char) :
    digitOf? base (toLower c) = digitOf? base c := by
  have hfilter (c : Char) : digitOf? base c = (digitOf? 16 c).filter (· < base) := by
    ext d
    rw [digitOf?_eq_some_iff, Option.filter_eq_some_iff, digitOf?_eq_some_iff, decide_eq_true_eq]
    constructor
    · rintro ⟨hvalue, hlt⟩
      exact ⟨⟨hvalue, by omega⟩, hlt⟩
    · rintro ⟨⟨hvalue, -⟩, hlt⟩
      exact ⟨hvalue, hlt⟩
  rw [hfilter, hfilter, digitOf?_sixteen_toLower]

theorem digitsOnto?_map_toLower (hbase : base ≤ 16) (high : Nat) (cs : List Char) :
    digitsOnto? base high (cs.map toLower) = digitsOnto? base high cs := by
  induction cs generalizing high with
  | nil => rfl
  | cons c cs ih =>
    rw [List.map_cons, digitsOnto?, digitsOnto?, digitOf?_toLower hbase]
    cases digitOf? base c with
    | none => rfl
    | some d => exact ih _

/-! ### Numerals -/

/-- **Digits are read as the number that they denote**, behind digits of value `high`. -/
theorem digitsOnto?_eq {digits : List Char}
    (hdigits : ∀ c, digitOf? base c = if c ∈ digits then some (digitPlace c) else none)
    (high : Nat) (cs : List Char) :
    digitsOnto? base high cs =
      if cs.all digits.contains then some (high * base ^ cs.length + numeralValue base cs)
      else none := by
  induction cs generalizing high with
  | nil => simp [digitsOnto?, numeralValue]
  | cons c cs ih =>
    rw [digitsOnto?, hdigits]
    by_cases hc : c ∈ digits
    · have hvalue : (high * base + digitPlace c) * base ^ cs.length + numeralValue base cs =
          high * base ^ (cs.length + 1) + numeralValue base (c :: cs) := by
        rw [numeralValue_cons]
        ring
      simp [hc, ih, hvalue]
    · simp [hc]

theorem all_contains_iff {digits : List Char} :
    cs.all digits.contains = true ↔ ∀ c ∈ cs, c ∈ digits := by
  simp

/-- Digits denote a number with at most as many places as there are digits. -/
theorem numeralValue_lt {digits : List Char} (hbase : 1 < base)
    (hplace : digits.all (fun c => digitPlace c < base) = true) (h : ∀ c ∈ cs, c ∈ digits) :
    numeralValue base cs < base ^ cs.length := by
  have hplaces : ∀ d ∈ (cs.map digitPlace).reverse, d < base := by
    intro d hd
    rw [List.mem_reverse] at hd
    obtain ⟨c, hc, rfl⟩ := List.mem_map.mp hd
    exact of_decide_eq_true (List.all_eq_true.mp hplace c (h c hc))
  have hlt := Nat.ofDigits_lt_base_pow_length hbase hplaces
  rwa [List.length_reverse, List.length_map] at hlt

end Text

namespace Token

open Text

variable {loc : Location} {rest : List Char}

/-! ### Literals -/

theorem ofBinary_map_toLower (rest : List Char) :
    ofBinary (rest.map toLower) =
      if rest.all binaryDigits.contains then
        if rest.length < 8 then .error .incompleteByte
        else if rest.length = 8 then .ok (byte (UInt8.ofNat (numeralValue 2 rest)))
        else .error .malformedByte
      else .error .malformedByte := by
  have hvalue := digitsOnto?_eq digitOf?_two 0 rest
  rw [← digitsOnto?_map_toLower (by decide), Nat.zero_mul, Nat.zero_add] at hvalue
  have hall : (rest.map toLower).all (fun c => c == '0' || c == '1') =
      (digitsOnto? 2 0 (rest.map toLower)).isSome := by
    simp only [isSome_digitsOnto?, isSome_digitOf?_two]
  rw [ofBinary, hall, hvalue, List.length_map]
  by_cases hbinary : rest.all binaryDigits.contains = true
  · simp only [if_pos hbinary, Option.isSome_some, if_true, Option.getD_some]
  · simp only [if_neg hbinary, Option.isSome_none, Bool.false_eq_true, if_false]

theorem ofHex_map_toLower (rest : List Char) :
    ofHex (rest.map toLower) =
      if rest.all hexDigits.contains then
        if rest.length = 2 then .ok (byte (UInt8.ofNat (numeralValue 16 rest)))
        else if rest.length = 4 then .ok (number (Int32.ofNat (numeralValue 16 rest)))
        else .error .invalidHex
      else .error .invalidHex := by
  have hvalue := digitsOnto?_eq digitOf?_sixteen 0 rest
  rw [← digitsOnto?_map_toLower (by decide), Nat.zero_mul, Nat.zero_add] at hvalue
  rw [ofHex, hvalue, List.length_map]
  split_ifs <;> rfl

theorem byte_injective : Function.Injective byte := by
  intro v w h
  have hvalue : Int32.ofNat v.toNat = Int32.ofNat w.toNat := congrArg Token.value h
  have hv := v.toNat_lt
  have hw := w.toNat_lt
  have hint := congrArg Int32.toInt hvalue
  rw [Int32.toInt_ofNat_of_lt (by omega), Int32.toInt_ofNat_of_lt (by omega)] at hint
  exact UInt8.toNat_inj.mp (by omega)

/-- **What a line with a binary literal is read as**, by the word behind `0b`. -/
structure ReadsBinary (rest : List Char) (line : Except Fault (List Token)) : Prop where
  /-- Eight binary digits are the byte that they denote. -/
  byte (v : UInt8) : line = .ok [byte v] ↔
    (∀ c ∈ rest, c ∈ binaryDigits) ∧ rest.length = 8 ∧ v.toNat = numeralValue 2 rest
  /-- Fewer of them are an incomplete byte. -/
  incomplete : line = .error .incompleteByte ↔
    (∀ c ∈ rest, c ∈ binaryDigits) ∧ rest.length < 8
  /-- Anything else is malformed. -/
  malformed : line = .error .malformedByte ↔
    ¬ ((∀ c ∈ rest, c ∈ binaryDigits) ∧ rest.length ≤ 8)

/-- **What a line with a hexadecimal literal is read as**, by the word behind `0x`. -/
structure ReadsHex (rest : List Char) (line : Except Fault (List Token)) : Prop where
  /-- Two hexadecimal digits are the byte that they denote. -/
  byte (v : UInt8) : line = .ok [byte v] ↔
    (∀ c ∈ rest, c ∈ hexDigits) ∧ rest.length = 2 ∧ v.toNat = numeralValue 16 rest
  /-- Four of them are the number that they denote. -/
  number (v : Int32) : line = .ok [number v] ↔
    (∀ c ∈ rest, c ∈ hexDigits) ∧ rest.length = 4 ∧ v.toInt = numeralValue 16 rest
  /-- Anything else is refused. -/
  invalid : line = .error .invalidHex ↔
    ¬ ((∀ c ∈ rest, c ∈ hexDigits) ∧ (rest.length = 2 ∨ rest.length = 4))

theorem singleton_byte_eq_iff {n : Nat} (hn : n < 256) (v : UInt8) :
    (.ok [byte (UInt8.ofNat n)] : Except Fault (List Token)) = .ok [byte v] ↔ v.toNat = n := by
  constructor
  · intro h
    have hbyte : byte (UInt8.ofNat n) = byte v := by simpa using h
    rw [← byte_injective hbyte]
    exact UInt8.toNat_ofNat_of_lt' hn
  · rintro rfl
    rw [UInt8.ofNat_toNat]

theorem singleton_number_eq_iff {n : Nat} (hn : n < 65536) (v : Int32) :
    (.ok [number (Int32.ofNat n)] : Except Fault (List Token)) = .ok [number v] ↔ v.toInt = n := by
  have hvalue : (Int32.ofNat n).toInt = n := Int32.toInt_ofNat_of_lt (by omega)
  constructor
  · intro h
    have hnumber : Int32.ofNat n = v := by simpa [number] using h
    rw [← hnumber, hvalue]
  · intro h
    rw [Int32.toInt_inj.mp (h.trans hvalue.symm)]

theorem readsBinary_map_ofBinary (rest : List Char) :
    ReadsBinary rest ((ofBinary (rest.map toLower)).map ([·])) := by
  rw [ofBinary_map_toLower]
  by_cases hbinary : ∀ c ∈ rest, c ∈ binaryDigits
  · rw [if_pos (all_contains_iff.mpr hbinary)]
    rcases Nat.lt_trichotomy rest.length 8 with hlength | hlength | hlength
    · rw [if_pos hlength]
      exact ⟨fun v => ⟨nofun, fun h => absurd h.2.1 (by omega)⟩,
        ⟨fun _ => ⟨hbinary, hlength⟩, fun _ => rfl⟩,
        ⟨nofun, fun h => absurd ⟨hbinary, by omega⟩ h⟩⟩
    · have hplace : binaryDigits.all (fun c => digitPlace c < 2) = true := by decide
      have hlt := numeralValue_lt (by decide) hplace hbinary
      rw [hlength] at hlt
      rw [if_neg (by omega), if_pos hlength]
      refine ⟨fun v => (singleton_byte_eq_iff hlt v).trans ?_,
        ⟨nofun, fun h => absurd h.2 (by omega)⟩,
        ⟨nofun, fun h => absurd ⟨hbinary, by omega⟩ h⟩⟩
      exact ⟨fun h => ⟨hbinary, hlength, h⟩, fun h => h.2.2⟩
    · rw [if_neg (by omega), if_neg (by omega)]
      exact ⟨fun v => ⟨nofun, fun h => absurd h.2.1 (by omega)⟩,
        ⟨nofun, fun h => absurd h.2 (by omega)⟩,
        ⟨fun _ h => absurd h.2 (by omega), fun _ => rfl⟩⟩
  · rw [if_neg (mt all_contains_iff.mp hbinary)]
    exact ⟨fun v => ⟨nofun, fun h => absurd h.1 hbinary⟩, ⟨nofun, fun h => absurd h.1 hbinary⟩,
      ⟨fun _ h => hbinary h.1, fun _ => rfl⟩⟩

theorem readsHex_map_ofHex (rest : List Char) :
    ReadsHex rest ((ofHex (rest.map toLower)).map ([·])) := by
  have hplace : hexDigits.all (fun c => digitPlace c < 16) = true := by decide
  rw [ofHex_map_toLower]
  by_cases hhex : ∀ c ∈ rest, c ∈ hexDigits
  · have hlt := numeralValue_lt (by decide) hplace hhex
    rw [if_pos (all_contains_iff.mpr hhex)]
    split_ifs with htwo hfour
    · rw [htwo] at hlt
      refine ⟨fun v => (singleton_byte_eq_iff hlt v).trans ?_,
        fun v => ⟨nofun, fun h => absurd h.2.1 (by omega)⟩,
        ⟨nofun, fun h => absurd ⟨hhex, .inl htwo⟩ h⟩⟩
      exact ⟨fun h => ⟨hhex, htwo, h⟩, fun h => h.2.2⟩
    · rw [hfour] at hlt
      refine ⟨fun v => ⟨nofun, fun h => absurd h.2.1 htwo⟩,
        fun v => (singleton_number_eq_iff hlt v).trans ?_,
        ⟨nofun, fun h => absurd ⟨hhex, .inr hfour⟩ h⟩⟩
      exact ⟨fun h => ⟨hhex, hfour, h⟩, fun h => h.2.2⟩
    · exact ⟨fun v => ⟨nofun, fun h => absurd h.2.1 htwo⟩,
        fun v => ⟨nofun, fun h => absurd h.2.1 hfour⟩,
        ⟨fun _ h => h.2.elim htwo hfour, fun _ => rfl⟩⟩
  · rw [if_neg (mt all_contains_iff.mp hhex)]
    exact ⟨fun v => ⟨nofun, fun h => absurd h.1 hhex⟩, fun v => ⟨nofun, fun h => absurd h.1 hhex⟩,
      ⟨fun _ h => hhex h.1, fun _ => rfl⟩⟩

/-- **Binary and hexadecimal literals are recognised exactly**, on a line of their own and with
either case of the letter that tells the base.  What follows this letter may be any word. -/
theorem radix_literals_exact (loc : Location) (rest : List Char)
    (hrest : ∀ c ∈ rest, isWordChar c = true) :
    (∀ b, b = 'b' ∨ b = 'B' → ReadsBinary rest (ofLine loc (Bytes.ofChars ('0' :: b :: rest)))) ∧
    ∀ x, x = 'x' ∨ x = 'X' → ReadsHex rest (ofLine loc (Bytes.ofChars ('0' :: x :: rest))) := by
  have hline {c : Char} (hc : isWordChar c = true) : ofLine loc (Bytes.ofChars ('0' :: c :: rest)) =
      (ofLiteral ('0' :: c :: rest)).map ([·]) :=
    ofLine_literal (by decide)
      (List.forall_mem_cons.mpr ⟨by decide, List.forall_mem_cons.mpr ⟨hc, hrest⟩⟩)
  constructor
  · rintro b (rfl | rfl) <;> rw [hline (by decide)] <;> exact readsBinary_map_ofBinary rest
  · rintro x (rfl | rfl) <;> rw [hline (by decide)] <;> exact readsHex_map_ofHex rest

/-- Literals of either base in mixed case, one that is too short, and one with a letter outside
ASCII that has an ASCII letter as its lower case. -/
theorem radix_literals_mixed_case :
    ofLine ⟨0x7C00, 0x7C05⟩ (Bytes.ofString "0B10000001") = .ok [byte 129] ∧
    ofLine ⟨0x7C00, 0x7C05⟩ (Bytes.ofString "0b101") = .error .incompleteByte ∧
    ofLine ⟨0x7C00, 0x7C05⟩ (Bytes.ofString "0X7C0e") = .ok [number 0x7C0E] ∧
    ofLine ⟨0x7C00, 0x7C05⟩ (Bytes.ofString "0xa\u212A") = .error .invalidHex := by
  have hreads (word : String) (h : word.toList.all isWordChar = true) :=
    radix_literals_exact ⟨0x7C00, 0x7C05⟩ word.toList (List.all_eq_true.mp h)
  refine ⟨?_, ?_, ?_, ?_⟩
  · refine (((hreads "10000001" (by decide)).1 'B' (.inr rfl)).byte 129).mpr ⟨?_, rfl, by decide⟩
    exact all_contains_iff.mp (by decide)
  · refine ((hreads "101" (by decide)).1 'b' (.inl rfl)).incomplete.mpr ⟨?_, by decide⟩
    exact all_contains_iff.mp (by decide)
  · refine (((hreads "7C0e" (by decide)).2 'X' (.inr rfl)).number 0x7C0E).mpr ⟨?_, rfl, by decide⟩
    exact all_contains_iff.mp (by decide)
  · refine ((hreads "a\u212A" (by decide +kernel)).2 'x' (.inl rfl)).invalid.mpr fun h => ?_
    exact absurd (all_contains_iff.mpr h.1) (by decide)

end Token

end BootSector
