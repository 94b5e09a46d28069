import BootSector.Program.Listing
import BootSector.Proofs.References
import Mathlib.Algebra.BigOperators.Group.List.Basic
import Mathlib.Algebra.GroupWithZero.Nat
import Mathlib.Data.List.Forall2

/-!
# Listings and machine code

The second sweep and the listing are two loops over the same statements.  Both stop at the first
statement that cannot be encoded, and a listing also where the writer takes no more rows.  The
statements are cut there once (`exists_cut`), and each loop is followed over the part in front of
the cut (`encodeOnto_append`, `listOnto_append`, `listOnto_append_some`); at the cut both end alike
(`listOnto_of_stops`).

A row is written for the reader by `row`: decimal and hexadecimal numerals, brought to the width of
their columns.  What it shows of a statement is the start of the bytes that the statement has in the
machine code, which begin where the bytes of the statements before end (`Cut.slice`).
-/

namespace BootSector

/-! ### Hexadecimal columns -/

namespace Text

/-- A number in hexadecimal digits of upper case, with zeros in front up to the given width. -/
def upperHex (width n : Nat) : List Char :=
  ((Nat.toDigits 16 n).map Char.toUpper).leftpad width '0'

theorem upperHexDigit_eq : ∀ d < 16, upperHexDigit d = d.digitChar.toUpper := by decide

/-- The last digit comes off the end. -/
theorem fixedHex_succ (digit : Nat → Char) (width n : Nat) :
    fixedHex digit (width + 1) n = fixedHex digit width (n / 16) ++ [digit (n % 16)] := by
  induction width with
  | zero =>
    have hone : n / Nat.pow 16 0 = n := Nat.div_one n
    simp only [fixedHex, hone, List.nil_append]
  | succ width ih =>
    have hdiv : n / Nat.pow 16 (width + 1) = n / 16 / Nat.pow 16 width := by
      rw [Nat.div_div_eq_div_mul, Nat.mul_comm]
      rfl
    rw [fixedHex, ih, hdiv]
    rfl

theorem upperHex_succ {width n : Nat} (hwidth : 0 < width) :
    upperHex (width + 1) n = upperHex width (n / 16) ++ [(n % 16).digitChar.toUpper] := by
  unfold upperHex List.leftpad
  by_cases hn : n < 16
  · -- a single digit, and the zero in front of it is a digit of the width
    have hdiv : n / 16 = 0 := Nat.div_eq_of_lt hn
    have hzeros : List.replicate width '0' = List.replicate (width - 1) '0' ++ ['0'] := by
      rw [← List.replicate_succ', Nat.sub_add_cancel hwidth]
    rw [Nat.toDigits_of_lt_base hn, hdiv, Nat.mod_eq_of_lt hn]
    simp [hzeros]
  · rw [Nat.toDigits_of_base_le (by decide) (Nat.le_of_not_lt hn)]
    simp

/-- **Hexadecimal digits of a fixed width** are the numeral with zeros in front of it. -/
theorem fixedHex_eq_upperHex {width n : Nat} (hwidth : 0 < width) (h : n < 16 ^ width) :
    fixedHex upperHexDigit width n = upperHex width n := by
  induction width, Nat.succ_le_of_lt hwidth using Nat.le_induction generalizing n with
  | base =>
    have hn : n < 16 := by simpa using h
    rw [fixedHex_succ, upperHexDigit_eq _ (Nat.mod_lt n (by decide)), Nat.mod_eq_of_lt hn, upperHex,
      Nat.toDigits_of_lt_base hn]
    rfl
  | succ width hle ih =>
    have hdiv : n / 16 < 16 ^ width := by
      rw [pow_succ] at h
      exact Nat.div_lt_of_lt_mul (by rwa [Nat.mul_comm])
    rw [fixedHex_succ, upperHex_succ hle, ih hle hdiv,
      upperHexDigit_eq _ (Nat.mod_lt n (by decide))]

end Text

/-- How a listing ends whose statements have the given bytes or error. -/
def ListingError.ofResult : Except AssemblyError Bytes → Option ListingError
  | .ok _ => none
  | .error e => some (.encoding e)

namespace Program

/-! ### Rows -/

/-- **A row**: the number of the line in five columns, the address in four digits, up to eight bytes
in sixteen columns, a plus sign if there are more, and the line. -/
def row (number : Nat) (address : UInt16) (slice line : Bytes) : Bytes :=
  Bytes.ofChars ((Nat.toDigits 10 number).leftpad 5 ' ' ++ [' '] ++
    Text.upperHex 4 address.toNat ++ [' '] ++
    ((slice.take (min 8 slice.length)).flatMap (Text.upperHex 2 ·.toNat)).rightpad 16 ' ' ++
    [if 8 < slice.length then '+' else ' '] ++ [' ']) ++ line ++ [Reading.newline]

theorem listingRow_eq_row (st : Statement) (code : Bytes) :
    listingRow st code = row st.lineNo st.address code st.line := by
  have haddress : Text.fixedHex Text.upperHexDigit 4 st.address.toNat =
      Text.upperHex 4 st.address.toNat :=
    Text.fixedHex_eq_upperHex (by decide) st.address.toNat_lt
  have hbyte : (fun b : UInt8 => Text.fixedHex Text.upperHexDigit 2 b.toNat) =
      (Text.upperHex 2 ·.toNat) := by
    funext b
    exact Text.fixedHex_eq_upperHex (by decide) b.toNat_lt
  have htake : code.take listingBytes = code.take (min 8 code.length) := List.take_eq_take_min
  have hmark : (if listingBytes < code.length then '+' else ' ') =
      if 8 < code.length then '+' else ' ' := rfl
  have hwidth : 2 * listingBytes = 16 := rfl
  have hnewline : Bytes.ofString "\n" = [Reading.newline] := by decide
  simp only [listingRow, row, haddress, hbyte, htake, hmark, hwidth, hnewline]
  simp [Text.padLeft, Text.padRight, List.leftpad, List.rightpad, Text.decimal]

example : row 5 0x7C04 (Bytes.ofString "Hello World!") (Bytes.ofString "\"Hello World!\"") =
    Bytes.ofString "    5 7C04 48656C6C6F20576F+ \"Hello World!\"\n" := by decide +kernel

/-! ### The first statement that cannot be encoded -/

variable {p : Program} {sts front rest : List Statement} {codes done written : List Bytes}

/-- **Statements, cut in front of the first that cannot be encoded**; `codes` are the bytes of the
statements in front of the cut. -/
structure Cut (p : Program) (sts front rest : List Statement) (codes : List Bytes) : Prop where
  split : sts = front ++ rest
  codes : List.Forall₂ (fun st code => p.encodeStatement st = .ok code) front codes
  stops : ∀ st ∈ rest.head?, ∃ e, p.encodeStatement st = .error e

theorem exists_cut (p : Program) (sts : List Statement) :
    ∃ front rest codes, p.Cut sts front rest codes := by
  induction sts with
  | nil => exact ⟨[], [], [], rfl, .nil, by simp⟩
  | cons st sts ih =>
    cases hst : p.encodeStatement st with
    | error e =>
      refine ⟨[], st :: sts, [], rfl, .nil, ?_⟩
      rintro _ ⟨⟩
      exact ⟨e, hst⟩
    | ok code =>
      obtain ⟨front, rest, codes, hcut⟩ := ih
      exact ⟨st :: front, rest, code :: codes, congrArg (st :: ·) hcut.split, .cons hst hcut.codes,
        hcut.stops⟩

/-- The second sweep gets through to the cut. -/
theorem encodeOnto_append
    (h : List.Forall₂ (fun st code => p.encodeStatement st = .ok code) front codes) :
    p.encodeOnto done (front ++ rest) = p.encodeOnto (codes.reverse ++ done) rest := by
  induction h generalizing done with
  | nil => rfl
  | @cons st code front codes hst _ ih =>
    rw [List.cons_append, encodeOnto, hst]
    dsimp only
    rw [ih, List.reverse_cons, List.append_assoc]
    rfl

/-- A listing without a limit has a row for each statement up to the cut. -/
theorem listOnto_append
    (h : List.Forall₂ (fun st code => p.encodeStatement st = .ok code) front codes) :
    p.listOnto written none (front ++ rest) =
      p.listOnto ((List.zipWith listingRow front codes).reverse ++ written) none rest := by
  induction h generalizing written with
  | nil => rfl
  | @cons st code front codes hst _ ih =>
    rw [List.cons_append, listOnto, hst]
    dsimp only
    rw [ih, List.zipWith_cons_cons, List.reverse_cons, List.append_assoc]
    rfl

/-- A listing with a limit ends there, or reaches the cut. -/
theorem listOnto_append_some
    (h : List.Forall₂ (fun st code => p.encodeStatement st = .ok code) front codes) (k : Nat) :
    p.listOnto written (some k) (front ++ rest) =
      if k < front.length then
        (written.reverse ++ (List.zipWith listingRow front codes).take k, some .writer)
      else
        p.listOnto ((List.zipWith listingRow front codes).reverse ++ written)
          (some (k - front.length)) rest := by
  induction h generalizing written k with
  | nil => rfl
  | @cons st code front codes hst _ ih =>
    rw [List.cons_append, listOnto, hst]
    cases k with
    | zero => simp
    | succ k =>
      dsimp only
      rw [ih, List.zipWith_cons_cons, List.take_succ_cons, List.reverse_cons, List.reverse_cons,
        List.append_assoc, List.append_assoc, List.length_cons, Nat.add_sub_add_right]
      simp only [Nat.add_lt_add_iff_right, List.singleton_append]

/-- At the cut, the listing and the second sweep end alike, whatever the writer would still take. -/
theorem listOnto_of_stops (h : ∀ st ∈ rest.head?, ∃ e, p.encodeStatement st = .error e)
    (capacity : Option Nat) (done : List Bytes) :
    p.listOnto written capacity rest =
      (written.reverse, ListingError.ofResult (p.encodeOnto done rest)) := by
  cases rest with
  | nil => rfl
  | cons st rest =>
    obtain ⟨e, he⟩ := h st rfl
    rw [listOnto, encodeOnto, he]
    rfl

namespace Cut

variable (h : p.Cut p.statements front rest codes)

include h

theorem length_codes : codes.length = front.length := h.codes.length_eq.symm

theorem encode_eq : p.encode = p.encodeOnto codes.reverse rest := by
  rw [encode, h.split, encodeOnto_append h.codes, List.append_nil]

/-- **The listing goes as far as the second sweep.** -/
theorem listing_none : p.listing none =
    (List.zipWith listingRow front codes, ListingError.ofResult p.encode) := by
  rw [listing, h.split, listOnto_append h.codes, listOnto_of_stops h.stops none codes.reverse,
    h.encode_eq, List.append_nil, List.reverse_reverse]

/-- **A writer with a limit** gets the first rows. -/
theorem listing_some (k : Nat) : p.listing (some k) =
    ((List.zipWith listingRow front codes).take (min k front.length),
      if k < front.length then some .writer else ListingError.ofResult p.encode) := by
  rw [listing, h.split, listOnto_append_some h.codes, listOnto_of_stops h.stops _ codes.reverse,
    h.encode_eq, List.append_nil, List.reverse_reverse]
  have hlength : (List.zipWith listingRow front codes).length = front.length := by
    rw [List.length_zipWith, h.length_codes, Nat.min_self]
  split
  · rename_i hk
    rw [Nat.min_eq_left (Nat.le_of_lt hk)]
    rfl
  · rename_i hk
    rw [Nat.min_eq_right (Nat.le_of_not_lt hk), ← hlength, List.take_length]

/-- The cut is at the end of the program, or its next statement has the error of the program. -/
theorem encode_ok_or_error : (front.length = p.statements.length ∧ p.encode = .ok codes.flatten) ∨
    ∃ st fault, p.statements[front.length]? = some st ∧
      p.encodeStatement st = .error (.onLine st.lineNo st.line fault) ∧
      p.encode = .error (.onLine st.lineNo st.line fault) := by
  cases hrest : rest with
  | nil =>
    have hsplit := h.split
    rw [hrest, List.append_nil] at hsplit
    left
    rw [h.encode_eq, hsplit, hrest, encodeOnto, List.reverse_reverse]
    exact ⟨rfl, rfl⟩
  | cons st more =>
    right
    obtain ⟨e, he⟩ := h.stops st (by rw [hrest]; rfl)
    obtain ⟨fault, -, rfl⟩ := encodeStatement_eq_error_iff.mp he
    refine ⟨st, fault, ?_, he, ?_⟩
    · rw [h.split, hrest, List.getElem?_append_right (Nat.le_refl _), Nat.sub_self]
      rfl
    · rw [h.encode_eq, hrest, encodeOnto, he]

/-- Every statement in front of the cut can be encoded. -/
theorem exists_code {k : Nat} (hk : k < front.length) :
    ∃ st code, p.statements[k]? = some st ∧ p.encodeStatement st = .ok code := by
  refine ⟨front[k], _, ?_, h.codes.get hk (h.length_codes ▸ hk)⟩
  rw [h.split, List.getElem?_append_left hk, List.getElem?_eq_getElem hk]

end Cut

/-! ### Slices of the machine code -/

/-- How many bytes the statements before a statement have. -/
def bytesBefore (p : Program) (i : Nat) : Nat :=
  ((p.statements.take i).map (·.instruction.size)).sum

theorem map_length_codes
    (h : List.Forall₂ (fun st code => p.encodeStatement st = .ok code) front codes) :
    codes.map List.length = front.map (·.instruction.size) := by
  induction h with
  | nil => rfl
  | @cons st code front codes hst _ ih =>
    rw [List.map_cons, List.map_cons, ih, length_of_encodeStatement hst]

theorem encodes_of_forall₂
    (h : List.Forall₂ (fun st code => p.encodeStatement st = .ok code) front codes) :
    p.Encodes front codes.flatten := by
  induction h with
  | nil => exact .nil
  | cons hst _ ih => exact .cons hst ih

/-- **The bytes of a statement begin where those of the statements before it end.** -/
theorem Cut.slice (h : p.Cut p.statements front rest codes) {i : Nat} {st : Statement}
    {code : Bytes} (hst : front[i]? = some st) (hcode : codes[i]? = some code) :
    (codes.flatten.drop (p.bytesBefore i)).take st.instruction.size = code := by
  obtain ⟨hi, rfl⟩ := List.getElem?_eq_some_iff.mp hcode
  obtain ⟨hi', rfl⟩ := List.getElem?_eq_some_iff.mp hst
  have hbefore : p.bytesBefore i = ((codes.map List.length).take i).sum := by
    rw [map_length_codes h.codes, ← List.map_take, bytesBefore, h.split,
      List.take_append_of_le_length (Nat.le_of_lt hi')]
  have hlength : codes[i].length = front[i].instruction.size :=
    length_of_encodeStatement (h.codes.get hi' hi)
  rw [hbefore, List.drop_sum_flatten, List.drop_eq_getElem_cons hi, List.flatten_cons, ← hlength,
    List.take_left]

/-! ### Listings -/

/-- **A listing that goes with the machine code.**  The first `n` statements are those in front of
the first that cannot be encoded, and `code` is their machine code. -/
structure Listed (p : Program) (n : Nat) (code : Bytes) : Prop where
  /-- The first `n` statements can be encoded. -/
  front : encode { p with statements := p.statements.take n } = .ok code
  /-- They are the whole program, or the next statement has the error of the program. -/
  stops : (n = p.statements.length ∧ p.encode = .ok code) ∨
    ∃ st fault, p.statements[n]? = some st ∧
      p.encodeStatement st = .error (.onLine st.lineNo st.line fault) ∧
      p.encode = .error (.onLine st.lineNo st.line fault)
  /-- The listing is complete exactly if the program can be encoded. -/
  complete : (p.listing none).2 = none ↔ ∃ all, p.encode = .ok all
  /-- An incomplete listing has the error of the program. -/
  error (e : ListingError) :
    (p.listing none).2 = some e ↔ ∃ e', p.encode = .error e' ∧ e = .encoding e'
  /-- There is one row for each of the `n` statements. -/
  count : (p.listing none).1.length = n
  /-- The bytes of a statement are its slice of the machine code.  A row shows the number and the
  address of its statement, the first bytes of the slice, and the line. -/
  rows (i : Nat) (st : Statement) : i < n → p.statements[i]? = some st →
    ∃ slice, p.encodeStatement st = .ok slice ∧
      slice = (code.drop (p.bytesBefore i)).take st.instruction.size ∧
      (p.listing none).1[i]? = some (row st.lineNo st.address slice st.line)
  /-- A writer that takes `k` rows gets the first `k` of them, if there are so many. -/
  limited (k : Nat) : (p.listing (some k)).1 = (p.listing none).1.take (min k n)
  /-- It is the writer's fault that there are no more exactly if the next row can be encoded. -/
  refused (k : Nat) : (p.listing (some k)).2 = some .writer ↔
    k < n ∧ ∃ st code', p.statements[k]? = some st ∧ p.encodeStatement st = .ok code'
  /-- Otherwise the listing ends as it does without a limit. -/
  unlimited (k : Nat) : (p.listing (some k)).2 ≠ some .writer →
    (p.listing (some k)).2 = (p.listing none).2

theorem ofResult_eq_none_iff {result : Except AssemblyError Bytes} :
    ListingError.ofResult result = none ↔ ∃ code, result = .ok code := by
  cases result <;> simp [ListingError.ofResult]

theorem ofResult_eq_some_iff {result : Except AssemblyError Bytes} {e : ListingError} :
    ListingError.ofResult result = some e ↔ ∃ e', result = .error e' ∧ e = .encoding e' := by
  cases result <;> simp [ListingError.ofResult, eq_comm]

/-- **The listing agrees with the machine code**, for every program. -/
theorem listing_agrees (p : Program) : ∃ n code, p.Listed n code := by
  obtain ⟨front, rest, codes, hcut⟩ := p.exists_cut p.statements
  have hlength := hcut.length_codes
  have hnone := hcut.listing_none
  refine ⟨front.length, codes.flatten, ?_⟩
  constructor
  case front =>
    have htake : p.statements.take front.length = front := by rw [hcut.split, List.take_left]
    rw [htake]
    exact encode_eq_ok_iff.mpr (encodes_of_forall₂ hcut.codes)
  case stops => exact hcut.encode_ok_or_error
  case complete => rw [hnone, ofResult_eq_none_iff]
  case error => intro e; rw [hnone, ofResult_eq_some_iff]
  case count => rw [hnone, List.length_zipWith, hlength, Nat.min_self]
  case rows =>
    intro i st hi hst
    rw [hcut.split, List.getElem?_append_left hi] at hst
    have hi' : i < codes.length := hlength ▸ hi
    have hcode : codes[i]? = some codes[i] := List.getElem?_eq_getElem hi'
    refine ⟨codes[i], ?_, (hcut.slice hst hcode).symm, ?_⟩
    · obtain ⟨-, rfl⟩ := List.getElem?_eq_some_iff.mp hst
      exact hcut.codes.get hi hi'
    · rw [hnone, List.getElem?_zipWith, hst, hcode, ← listingRow_eq_row]
  case limited => intro k; rw [hcut.listing_some, hnone]
  case refused =>
    intro k
    rw [hcut.listing_some]
    dsimp only
    split
    · rename_i hk
      exact iff_of_true rfl ⟨hk, hcut.exists_code hk⟩
    · rename_i hk
      refine iff_of_false ?_ fun h => hk h.1
      rw [ofResult_eq_some_iff]
      rintro ⟨_, -, he⟩
      cases he
  case unlimited =>
    intro k
    rw [hcut.listing_some, hnone]
    dsimp only
    split
    · intro h
      exact absurd rfl h
    · intro _
      rfl

end Program

end BootSector
