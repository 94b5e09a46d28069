import BootSector.Proofs.Layout

/-!
# From an address to its statement

`Program.locate` searches the statements in source order for the first one whose range holds an
address (`locate_eq_some_iff`, `locate_eq_none_iff`).

In a single segment the search has at most one answer.  Seen from the origin, the range of the
`i`-th statement starts at its offset (`spans_iff_offset`), and the offsets cut the machine code
into consecutive pieces: every place of the code is in a piece (`exists_of_lt_total`), and pieces do
not overlap (`offset_add_le`).  So an address of the code leads to the one statement whose bytes are
there, and an address outside leads nowhere.
-/

namespace BootSector

/-! ### Ranges -/

namespace Statement

variable {st : Statement} {addr : UInt16}

/-- **The range of the statement holds the address.**  The range may end at 2¹⁶. -/
def Spans (st : Statement) (addr : UInt16) : Prop :=
  st.address.toNat ≤ addr.toNat ∧ addr.toNat < st.address.toNat + st.length.toNat

theorem covers_iff : st.covers addr = true ↔ st.Spans addr := by
  simp only [covers, Spans, Bool.and_eq_true, decide_eq_true_eq, UInt16.le_iff_toNat_le]

theorem Spans.length_ne_zero (h : st.Spans addr) : st.length ≠ 0 := by
  intro hzero
  have hlength : st.length.toNat = 0 := by rw [hzero]; rfl
  have hrange := h.2
  have hstart := h.1
  omega

/-- Every place below the total length lies in some statement. -/
theorem exists_of_lt_total {sts : List Statement} {k : Nat} (h : k < total sts) :
    ∃ i st, sts[i]? = some st ∧ total (sts.take i) ≤ k ∧
      k < total (sts.take i) + st.length.toNat := by
  induction sts generalizing k with
  | nil => exact absurd h (Nat.not_lt_zero k)
  | cons st sts ih =>
    rw [total_cons] at h
    rcases Nat.lt_or_ge k st.length.toNat with hhere | hbehind
    · exact ⟨0, st, rfl, Nat.zero_le k, by simpa using hhere⟩
    · -- a place behind the first statement is one of the others, further back
      obtain ⟨i, st', hst', hlow, hhigh⟩ := ih (k := k - st.length.toNat) (by omega)
      refine ⟨i + 1, st', hst', ?_, ?_⟩
      · rw [List.take_succ_cons, total_cons]
        omega
      · rw [List.take_succ_cons, total_cons]
        omega

end Statement

/-! ### The search -/

namespace Program

variable {p : Program} {addr : UInt16} {st : Statement} {i j k : Nat}

/-- **The first statement in source order whose range holds the address**, and the distance of the
address from its start. -/
def FirstSpan (p : Program) (addr : UInt16) (st : Statement) (k : Nat) : Prop :=
  ∃ i, p.statements[i]? = some st ∧ st.Spans addr ∧ k = addr.toNat - st.address.toNat ∧
    ∀ (j : Nat) (st' : Statement), j < i → p.statements[j]? = some st' → ¬ st'.Spans addr

theorem toNat_sub_address (h : st.Spans addr) :
    (addr - st.address).toNat = addr.toNat - st.address.toNat :=
  UInt16.toNat_sub_of_le addr st.address (UInt16.le_iff_toNat_le.mpr h.1)

theorem locate_eq_some_iff : p.locate addr = some (st, k) ↔ p.FirstSpan addr st k := by
  have hfind : p.statements.find? (·.covers addr) = some st ↔
      ∃ i, p.statements[i]? = some st ∧ st.Spans addr ∧
        ∀ (j : Nat) (st' : Statement), j < i → p.statements[j]? = some st' → ¬ st'.Spans addr := by
    rw [List.find?_eq_some_iff_getElem, Statement.covers_iff]
    constructor
    · rintro ⟨hspan, i, hi, rfl, hbefore⟩
      refine ⟨i, List.getElem?_eq_getElem hi, hspan, fun j st' hj hst' hspan' => ?_⟩
      obtain ⟨hj', rfl⟩ := List.getElem?_eq_some_iff.mp hst'
      have hnot := hbefore j hj
      rw [Statement.covers_iff.mpr hspan'] at hnot
      cases hnot
    · rintro ⟨i, hst, hspan, hbefore⟩
      obtain ⟨hi, rfl⟩ := List.getElem?_eq_some_iff.mp hst
      refine ⟨hspan, i, hi, rfl, fun j hj => ?_⟩
      have hnot := hbefore j _ hj (List.getElem?_eq_getElem (Nat.lt_trans hj hi))
      rw [← Statement.covers_iff] at hnot
      simpa using hnot
  unfold locate FirstSpan
  constructor
  · intro h
    obtain ⟨st', hst', heq⟩ := Option.map_eq_some_iff.mp h
    obtain ⟨rfl, rfl⟩ := Prod.mk.inj heq
    obtain ⟨i, hi, hspan, hbefore⟩ := hfind.mp hst'
    exact ⟨i, hi, hspan, toNat_sub_address hspan, hbefore⟩
  · rintro ⟨i, hi, hspan, rfl, hbefore⟩
    rw [hfind.mpr ⟨i, hi, hspan, hbefore⟩, Option.map_some, toNat_sub_address hspan]

theorem locate_eq_none_iff : p.locate addr = none ↔ ∀ st ∈ p.statements, ¬ st.Spans addr := by
  unfold locate
  rw [Option.map_eq_none_iff, List.find?_eq_none]
  simp only [Statement.covers_iff]

/-! ### A single segment -/

theorem offset_mono (h : i ≤ j) : p.offset i ≤ p.offset j := by
  have hsplit : p.statements.take j = p.statements.take i ++ (p.statements.take j).drop i := by
    conv => lhs; rw [← List.take_append_drop i (p.statements.take j)]
    rw [List.take_take, Nat.min_eq_left h]
  rw [offset, offset, hsplit, Statement.total_append]
  exact Nat.le_add_right _ _

/-- The pieces of the code do not overlap. -/
theorem offset_add_le (hst : p.statements[i]? = some st) (h : i < j) :
    p.offset i + st.length.toNat ≤ p.offset j := by
  rw [← offset_succ hst]
  exact offset_mono h

/-- **The byte at the address**, as the machine code and the search give it: the statement that is
found is the only one whose range holds the address, and its bytes agree with the code there. -/
structure BytesAgree (p : Program) (code : Bytes) (origin addr : UInt16) (i : Nat) (st : Statement)
    (k : Nat) (own : Bytes) (b : UInt8) : Prop where
  /-- The search finds the statement and the place in it. -/
  found : p.locate addr = some (st, k)
  /-- The statement has bytes, and the place is one of them. -/
  encoded : p.statements[i]? = some st ∧ p.encodeStatement st = .ok own ∧ k < own.length
  /-- The byte stands in the statement and in the code. -/
  agree : own[k]? = some b ∧ code[addr.toNat - origin.toNat]? = some b
  /-- No other statement covers the address. -/
  only (j : Nat) (st' : Statement) : p.statements[j]? = some st' → st'.Spans addr → j = i

/-- **What the search gives**, for the program `p` that assembler `a` makes of `lines`. -/
structure Searched (a : Assembler) (lines : List Bytes) (p : Program) : Prop where
  /-- The first statement whose range holds the address is found. -/
  found (addr : UInt16) (st : Statement) (k : Nat) :
    p.locate addr = some (st, k) ↔ p.FirstSpan addr st k
  /-- Nothing is found exactly if no range holds the address. -/
  missed (addr : UInt16) : p.locate addr = none ↔ ∀ st ∈ p.statements, ¬ st.Spans addr
  /-- In a single segment, an address of the code leads to its byte. -/
  inside : (∀ n, 0 < n → a.segment? lines n = none) → ∀ code, p.encode = .ok code →
    ∀ addr : UInt16, a.origin.toNat ≤ addr.toNat → addr.toNat < a.origin.toNat + code.length →
      ∃ i st k own b, p.BytesAgree code a.origin addr i st k own b
  /-- In a single segment, any other address leads nowhere. -/
  outside : (∀ n, 0 < n → a.segment? lines n = none) → ∀ code, p.encode = .ok code →
    ∀ addr : UInt16, ¬ (a.origin.toNat ≤ addr.toNat ∧ addr.toNat < a.origin.toNat + code.length) →
      p.locate addr = none

end Program

namespace Assembler

variable {a : Assembler} {lines : List Bytes} {s : Sweep} {p : Program} {st st' : Statement}
  {addr : UInt16} {i j : Nat}

/-- In a single segment, the range of a statement is its piece of the code, seen from the origin. -/
theorem spans_iff_offset (hs : a.after lines = some s)
    (hp : p = ⟨s.statements.toList, s.labels, a.strict⟩)
    (hnone : ∀ n, 0 < n → a.segment? lines n = none) (hst : p.statements[i]? = some st) :
    st.Spans addr ↔ a.origin.toNat + p.offset i ≤ addr.toNat ∧
      addr.toNat < a.origin.toNat + p.offset i + st.length.toNat := by
  subst hp
  have haddress (hne : st.length ≠ 0) : st.address.toNat = a.origin.toNat +
      Program.offset ⟨s.statements.toList, s.labels, a.strict⟩ i :=
    address_eq_origin_add hs hst hne hnone
  constructor
  · intro hspan
    have hstart := haddress hspan.length_ne_zero
    unfold Statement.Spans at hspan
    omega
  · -- the address of an empty statement may have wrapped around, but then no address fits
    rintro ⟨hlow, hhigh⟩
    have hne : st.length ≠ 0 := by
      intro hzero
      have hlength : st.length.toNat = 0 := by rw [hzero]; rfl
      omega
    have hstart := haddress hne
    unfold Statement.Spans
    omega

theorem index_eq_of_spans (hs : a.after lines = some s)
    (hp : p = ⟨s.statements.toList, s.labels, a.strict⟩)
    (hnone : ∀ n, 0 < n → a.segment? lines n = none) (hi : p.statements[i]? = some st)
    (hj : p.statements[j]? = some st') (hspan : st.Spans addr) (hspan' : st'.Spans addr) :
    j = i := by
  rw [spans_iff_offset hs hp hnone hi] at hspan
  rw [spans_iff_offset hs hp hnone hj] at hspan'
  rcases Nat.lt_trichotomy j i with hlt | heq | hgt
  · have hle := Program.offset_add_le hj hlt
    omega
  · exact heq
  · have hle := Program.offset_add_le hi hgt
    omega

/-- **The search agrees with the machine code.** -/
theorem searched_of_parse (a : Assembler) (source : Bytes) (p : Program)
    (hparse : a.parse source = .ok p) : p.Searched a (Reading.ofBytes source).lines := by
  obtain ⟨-, s, hs, hp⟩ := parse_eq_ok_iff.mp hparse
  have hexact : ∀ st ∈ p.statements, st.length.toNat = st.instruction.size := by
    intro st hst
    rw [hp] at hst
    exact length_eq_size hs hst
  constructor
  case found => exact fun addr st k => Program.locate_eq_some_iff
  case missed => exact fun addr => Program.locate_eq_none_iff
  case inside =>
    intro hnone code hcode addr hlow hhigh
    rw [Program.encode_eq_ok_iff] at hcode
    have hlength : code.length = Statement.total p.statements := hcode.length_eq_total hexact
    obtain ⟨i, st, hst, hstart, hend⟩ : ∃ i st, p.statements[i]? = some st ∧
        p.offset i ≤ addr.toNat - a.origin.toNat ∧
        addr.toNat - a.origin.toNat < p.offset i + st.length.toNat :=
      Statement.exists_of_lt_total (by omega)
    have hspan : st.Spans addr := (spans_iff_offset hs hp hnone hst).mpr ⟨by omega, by omega⟩
    have honly : ∀ j st', p.statements[j]? = some st' → st'.Spans addr → j = i :=
      fun j st' hst' hspan' => index_eq_of_spans hs hp hnone hst hst' hspan hspan'
    -- the place in the statement is the place in the code behind the offset
    have haddress : st.address.toNat = a.origin.toNat + p.offset i := by
      subst hp
      exact address_eq_origin_add hs hst hspan.length_ne_zero hnone
    have hplace : p.offset i + (addr.toNat - st.address.toNat) = addr.toNat - a.origin.toNat := by
      omega
    have hk : addr.toNat - st.address.toNat < st.length.toNat := by omega
    obtain ⟨hfits, hown⟩ := hcode.slice hexact hst
    have hbyte : addr.toNat - a.origin.toNat < code.length := by omega
    refine ⟨i, st, addr.toNat - st.address.toNat, _, code[addr.toNat - a.origin.toNat],
      ?search, ⟨hst, hown, ?_⟩, ⟨?_, List.getElem?_eq_getElem hbyte⟩, honly⟩
    case search =>
      refine Program.locate_eq_some_iff.mpr ⟨i, hst, hspan, rfl, fun j st' hj hst' hspan' => ?_⟩
      have hji := honly j st' hst' hspan'
      omega
    · rw [List.length_take, List.length_drop]
      omega
    · rw [List.getElem?_take_of_lt hk, List.getElem?_drop, hplace, List.getElem?_eq_getElem hbyte]
  case outside =>
    intro hnone code hcode addr hout
    rw [Program.encode_eq_ok_iff] at hcode
    refine Program.locate_eq_none_iff.mpr fun st hst hspan => hout ?_
    -- a statement that covers the address has its bytes in the code
    obtain ⟨i, hi⟩ := List.mem_iff_getElem?.mp hst
    have hfits := (hcode.slice hexact hi).1
    rw [spans_iff_offset hs hp hnone hi] at hspan
    omega

/-- The last four bytes of the address space, with an empty statement before and behind them. -/
theorem searched_at_end :
    ∃ (source : Bytes) (p : Program) (code : Bytes) (text : Statement) (own : Bytes),
      parse { origin := 0xFFFC } source = .ok p ∧ p.encode = .ok code ∧
      code = [0xB4, 0x0E, 0x61, 0x62] ∧
      (∀ n, 0 < n → segment? { origin := 0xFFFC } (Reading.ofBytes source).lines n = none) ∧
      p.locate 0xFFFF = some (text, 1) ∧ p.encodeStatement text = .ok own ∧
      own[1]? = some 0x62 ∧ p.locate 0 = none ∧ p.locate 0xFFFB = none := by
  let source := Bytes.ofString "times 0 hlt\nmov ah 0x0e\n\"ab\"\n\"\"\n"
  let text : Statement := ⟨3, Bytes.ofString "\"ab\"", 0xFFFE, .text [0x61, 0x62]⟩
  let p : Program :=
    ⟨[⟨1, Bytes.ofString "times 0 hlt", 0xFFFC, .times 0 (.simple 0xF4)⟩,
      ⟨2, Bytes.ofString "mov ah 0x0e", 0xFFFC, .moveByte 4 0x0E⟩, text,
      ⟨4, Bytes.ofString "\"\"", 0, .text []⟩], .empty, false⟩
  let code : Bytes := [0xB4, 0x0E, 0x61, 0x62]
  have hparse : parse { origin := 0xFFFC } source = .ok p := rfl
  have hcode : p.encode = .ok code := rfl
  have hnone : ∀ n, 0 < n →
      segment? { origin := 0xFFFC } (Reading.ofBytes source).lines n = none := by
    intro n hn
    match n with
    | 1 | 2 | 3 | 4 => rfl
    | n + 5 =>
      have hline : (Reading.ofBytes source).lines[n + 4]? = none :=
        List.getElem?_eq_none (Nat.le_add_left 4 n)
      rw [segment?, hline]
      split <;> simp_all
  have hsearched := searched_of_parse { origin := 0xFFFC } source p hparse
  have hspan : text.Spans 0xFFFF := ⟨show 65534 ≤ 65535 by omega, show 65535 < 65534 + 2 by omega⟩
  obtain ⟨i, st, k, own, b, hagree⟩ :=
    hsearched.inside hnone code hcode 0xFFFF (show 65532 ≤ 65535 by omega)
      (show 65535 < 65532 + 4 by omega)
  obtain rfl : 2 = i := hagree.only 2 text rfl hspan
  obtain rfl : text = st := Option.some.inj hagree.encoded.1
  have hk : k = 65535 - 65534 := by
    obtain ⟨_, _, _, hk, _⟩ := (hsearched.found _ _ _).mp hagree.found
    exact hk
  rw [Nat.add_sub_cancel_left 65534 1] at hk
  have hb : b = 0x62 := Option.some.inj (hagree.agree.2.symm.trans rfl)
  subst hk hb
  refine ⟨source, p, code, text, own, hparse, hcode, rfl, hnone, hagree.found, hagree.encoded.2.1,
    hagree.agree.1, ?_, ?_⟩
  · exact hsearched.outside hnone code hcode 0 (show ¬ (65532 ≤ 0 ∧ 0 < 65532 + 4) by omega)
  · exact hsearched.outside hnone code hcode 0xFFFB
      (show ¬ (65532 ≤ 65531 ∧ 65531 < 65532 + 4) by omega)

end Assembler

end BootSector
