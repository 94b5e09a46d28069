import BootSector.Proofs.FirstFault
import BootSector.Proofs.Locality
import BootSector.Proofs.References
import BootSector.Proofs.Resumption

/-!
# Unrolling repetitions

A line with a repetition can be replaced by lines that hold its body, one for each copy.  The body
may not depend on where it stands: it has no jump, and neither line names a location counter.  Then
both lines hold the same instruction wherever they are read (`Repeats.holds_line`, `holds_copy`).

The sweep takes the copies one by one.  The reach only grows from copy to copy, so they all fit
exactly if the last one does, which is when the repetition fits (`Holds.run?_replicate`).  Behind
them the location, the reach and the labels are the same as behind the repetition (`alike_placed`),
and the sweep goes on alike.
-/

namespace BootSector

/-! ### Lines that hold an instruction -/

/-- A statement a number of times in a row, each time on the next line and at the next address. -/
def Statement.row (st : Statement) : Nat → List Statement
  | 0 => []
  | k + 1 => st :: row { st with lineNo := st.lineNo + 1, address := st.address + st.length } k

namespace Sweep

variable {verbose : Bool} {s s' : Sweep} {number : Nat} {line : Bytes} {i : Instruction}
  {rest : List Bytes}

/-- **The line holds the instruction**, behind no label and wherever it is read. -/
def Holds (line : Bytes) (i : Instruction) : Prop :=
  i.isOrigin = false ∧ ∀ loc, ∃ tokens, Token.ofLine loc line = .ok tokens ∧
    Token.definedLabel? tokens = none ∧ Instruction.ofTokens (Token.behindLabel tokens) = .ok i

/-- The state after a line that places an instruction and does nothing else. -/
def placed (verbose : Bool) (s : Sweep) (number : Nat) (line : Bytes) (i : Instruction) : Sweep :=
  { s.noted verbose number line with
    location := { s.location with current := s.location.current + i.length }
    reach := s.reach + i.length.toNat
    statements := s.statements.push ⟨number, line, s.location.current, i⟩ }

/-- The state once a number of lines have placed an instruction each. -/
def placedTimes (verbose : Bool) (s : Sweep) (number : Nat) (line : Bytes) (i : Instruction) :
    Nat → Sweep
  | 0 => s
  | k + 1 => placedTimes verbose (s.placed verbose number line i) (number + 1) line i k

/-- A line that holds an instruction does nothing but to place it, if it fits. -/
theorem Holds.advances_iff (h : Holds line i) :
    Advances verbose s number line s' ↔
      s.reach + i.length.toNat ≤ addressSpace ∧ s' = s.placed verbose number line i := by
  obtain ⟨horg, hread⟩ := h
  obtain ⟨tokens, htokens, hlabel, hi⟩ := hread s.location
  have hentered : s.entered verbose number line tokens = s.noted verbose number line := by
    rw [entered, hlabel]
  constructor
  · intro hadv
    cases hadv with
    | bare htokens' hlabel' hrest =>
      obtain rfl := Except.ok.inj (htokens.symm.trans htokens')
      rw [hrest] at hi
      cases hi
    | org htokens' hlabel' hi' =>
      obtain rfl := Except.ok.inj (htokens.symm.trans htokens')
      obtain rfl := Except.ok.inj (hi.symm.trans hi')
      cases horg
    | place htokens' hlabel' hi' horg' hfits =>
      obtain rfl := Except.ok.inj (htokens.symm.trans htokens')
      obtain rfl := Except.ok.inj (hi.symm.trans hi')
      rw [hentered]
      exact ⟨hfits, rfl⟩
  · rintro ⟨hfits, rfl⟩
    have hnone : (Token.definedLabel? tokens).isSome → s.reach < addressSpace := by
      rw [hlabel]
      exact fun hsome => by cases hsome
    have hplace : Advances verbose s number line _ := .place htokens hnone hi horg hfits
    rw [hentered] at hplace
    exact hplace

theorem Holds.run?_cons (h : Holds line i) :
    run? verbose s number (line :: rest) =
      if s.reach + i.length.toNat ≤ addressSpace then
        run? verbose (s.placed verbose number line i) (number + 1) rest
      else none := by
  refine Option.ext fun s' => ?_
  rw [run?_cons_eq_some_iff]
  simp only [h.advances_iff]
  split_ifs with hfits <;> simp [hfits]

/-- A line with tokens that are no statement stops the sweep. -/
theorem run?_cons_eq_none {tokens : List Token} {fault : Fault}
    (htokens : Token.ofLine s.location line = .ok tokens) (hne : Token.behindLabel tokens ≠ [])
    (hfault : Instruction.ofTokens (Token.behindLabel tokens) = .error fault) :
    run? verbose s number (line :: rest) = none := by
  refine Option.eq_none_iff_forall_ne_some.mpr fun s' h => ?_
  obtain ⟨s₁, hadv, -⟩ := run?_cons_eq_some_iff.mp h
  cases hadv with
  | bare htokens' hlabel hrest =>
    obtain rfl := Except.ok.inj (htokens.symm.trans htokens')
    exact hne hrest
  | org htokens' hlabel hi | place htokens' hlabel hi =>
    obtain rfl := Except.ok.inj (htokens.symm.trans htokens')
    rw [hfault] at hi
    cases hi

/-- **Copies are placed if the last one fits.** -/
theorem Holds.run?_replicate (h : Holds line i) (hreach : s.reach ≤ addressSpace) (k : Nat) :
    run? verbose s number (List.replicate k line ++ rest) =
      if s.reach + k * i.length.toNat ≤ addressSpace then
        run? verbose (s.placedTimes verbose number line i k) (number + k) rest
      else none := by
  induction k generalizing s number with
  | zero =>
    rw [Nat.zero_mul, Nat.add_zero, if_pos hreach]
    rfl
  | succ k ih =>
    have hgrown : (s.placed verbose number line i).reach = s.reach + i.length.toNat := rfl
    rw [List.replicate_succ, List.cons_append, h.run?_cons, Nat.succ_mul]
    by_cases hfits : s.reach + i.length.toNat ≤ addressSpace
    · -- the other copies are placed from behind the first one, to the same end
      rw [if_pos hfits, ih (hgrown ▸ hfits), hgrown, Nat.add_assoc s.reach,
        Nat.add_comm i.length.toNat, Nat.add_assoc number, Nat.add_comm 1]
      rfl
    · rw [if_neg hfits, if_neg (by omega)]

theorem placedTimes_spec (verbose : Bool) (s : Sweep) (number : Nat) (line : Bytes)
    (i : Instruction) (k : Nat) :
    (s.placedTimes verbose number line i k).location =
        { s.location with current := s.location.current + UInt16.ofNat k * i.length } ∧
      (s.placedTimes verbose number line i k).reach = s.reach + k * i.length.toNat ∧
      (s.placedTimes verbose number line i k).labels = s.labels ∧
      (s.placedTimes verbose number line i k).statements.toList =
        s.statements.toList ++ Statement.row ⟨number, line, s.location.current, i⟩ k := by
  induction k generalizing s number with
  | zero => simp [placedTimes, Statement.row]
  | succ k ih =>
    -- what the other copies do, from the state behind the first one
    obtain ⟨hlocation, hreach, hlabels, hstatements⟩ :=
      ih (s.placed verbose number line i) (number + 1)
    rw [placedTimes, hlocation, hreach, hlabels, hstatements]
    refine ⟨?_, ?_, noted_labels, ?_⟩
    · have hcurrent : s.location.current + i.length + UInt16.ofNat k * i.length =
          s.location.current + UInt16.ofNat (k + 1) * i.length := by
        rw [UInt16.ofNat_add]
        grind
      rw [← hcurrent]
      rfl
    · rw [Nat.succ_mul, Nat.add_comm (k * _), ← Nat.add_assoc]
      rfl
    · rw [Statement.row, List.append_cons, ← Array.toList_push]
      rfl

/-- **A repetition and its copies leave the sweep alike**, if they fit. -/
theorem alike_placed {copy : Bytes} {count : UInt16}
    (hsize : count.toNat * i.length.toNat ≤ 65535) :
    Alike (count.toNat - 1)
      (s.statements.toList ++ [⟨number, line, s.location.current, .times count i⟩])
      (s.statements.toList ++
        Statement.row ⟨number, copy, s.location.current, i⟩ count.toNat)
      (s.placed verbose number line (.times count i))
      (s.placedTimes verbose number copy i count.toNat) := by
  obtain ⟨hlocation, hreach, hlabels, hstatements⟩ :=
    placedTimes_spec verbose s number copy i count.toNat
  -- nothing is placed behind them yet
  refine ⟨?_, ?_, hlabels.trans noted_labels.symm, [], ?_, ?_⟩
  · rw [hlocation, UInt16.ofNat_toNat, UInt16.mul_comm]
    rfl
  · rw [hreach, ← Instruction.toNat_length_times hsize]
    rfl
  · rw [List.append_nil, ← Array.toList_push]
    rfl
  · rw [List.map_nil, List.append_nil, hstatements]

/-- The line of a repetition and the lines of its copies take the sweep on, or neither does. -/
theorem none_or_some_of_holds {copy : Bytes} {count : UInt16} (hline : Holds line (.times count i))
    (hcopy : Holds copy i) (hcount : count.toNat ≠ 0)
    (hsize : count.toNat * i.length.toNat ≤ 65535) (hreach : s.reach ≤ addressSpace) :
    (s.run? verbose number (line :: rest) = none ∧
        s.run? verbose number (List.replicate count.toNat copy ++ rest) = none) ∨
      ∃ s' t', s.run? verbose number (line :: rest) = some s' ∧
        s.run? verbose number (List.replicate count.toNat copy ++ rest) = some t' ∧
        Alike (count.toNat - 1)
          (s.statements.toList ++ [⟨number, line, s.location.current, .times count i⟩])
          (s.statements.toList ++
            Statement.row ⟨number, copy, s.location.current, i⟩ count.toNat) s' t' := by
  rw [hline.run?_cons, hcopy.run?_replicate hreach, Instruction.toNat_length_times hsize]
  by_cases hfits : s.reach + count.toNat * i.length.toNat ≤ addressSpace
  · rw [if_pos hfits, if_pos hfits]
    have hnumber : number + 1 + (count.toNat - 1) = number + count.toNat := by omega
    rw [← hnumber]
    exact (alike_placed hsize).none_or_some verbose (number + 1) rest
  · rw [if_neg hfits, if_neg hfits]
    exact .inl ⟨rfl, rfl⟩

end Sweep

/-! ### Repetitions and their copies -/

/-- **The line repeats what the copy says**: it has the same tokens behind a `times` and the number
of copies.  These are a statement without jumps, of which all copies fit 64K together, and nothing
on either line depends on the location. -/
structure Repeats (line copy : Bytes) (count : UInt16) (tokens : List Token) : Prop where
  reads_line : ∃ loc t number, Token.ofLine loc line = .ok (t :: number :: tokens) ∧
    t.kind = .times ∧ Instruction.IsWord number count
  reads_copy : ∃ loc, Token.ofLine loc copy = .ok tokens
  count_ne : count ≠ 0
  tokens_ne : tokens ≠ []
  start : ∀ first ∈ tokens.head?, first.kind ≠ .label ∧ first.kind ≠ .org
  isJump : ∀ t ∈ tokens, t.isJump = false
  counterFree_line : Token.CounterFree line
  counterFree_copy : Token.CounterFree copy
  size : ∀ body, Instruction.ofTokens tokens = .ok body → count.toNat * body.length.toNat ≤ 65535

namespace Repeats

variable {line copy : Bytes} {count : UInt16} {tokens : List Token} {body : Instruction}

theorem toNat_count_ne (h : Repeats line copy count tokens) : count.toNat ≠ 0 :=
  fun hzero => h.count_ne (UInt16.toNat_inj.mp hzero)

theorem ofLine_copy (h : Repeats line copy count tokens) (loc : Location) :
    Token.ofLine loc copy = .ok tokens := by
  obtain ⟨loc', hcopy⟩ := h.reads_copy
  exact Token.ofLine_eq_of_isJump h.counterFree_copy hcopy h.isJump loc

theorem exists_ofLine_line (h : Repeats line copy count tokens) :
    ∃ t number, t.kind = .times ∧ Instruction.IsWord number count ∧
      ∀ loc, Token.ofLine loc line = .ok (t :: number :: tokens) := by
  obtain ⟨loc', t, number, hline, ht, hnumber⟩ := h.reads_line
  refine ⟨t, number, ht, hnumber, Token.ofLine_eq_of_isJump h.counterFree_line hline ?_⟩
  -- neither the `times` nor the number is a jump
  intro t' ht'
  rcases List.mem_cons.mp ht' with rfl | ht'
  · rw [Token.isJump, ht]
    rfl
  · rcases List.mem_cons.mp ht' with rfl | ht'
    · rw [Token.isJump, hnumber.1]
      rfl
    · exact h.isJump t' ht'

theorem unlabelled (h : Repeats line copy count tokens) :
    Token.definedLabel? tokens = none ∧ Token.behindLabel tokens = tokens := by
  cases tokens with
  | nil => exact absurd rfl h.tokens_ne
  | cons first rest => exact Token.unlabelled_of_kind (h.start first rfl).1 rest

theorem holds_copy (h : Repeats line copy count tokens)
    (hbody : Instruction.ofTokens tokens = .ok body) : Sweep.Holds copy body := by
  obtain ⟨hlabel, hbehind⟩ := h.unlabelled
  refine ⟨Instruction.isOrigin_of_ofTokens (fun first hfirst => (h.start first hfirst).2) hbody,
    fun loc => ⟨tokens, h.ofLine_copy loc, hlabel, ?_⟩⟩
  rw [hbehind, hbody]

theorem holds_line (h : Repeats line copy count tokens)
    (hbody : Instruction.ofTokens tokens = .ok body) : Sweep.Holds line (.times count body) := by
  obtain ⟨t, number, ht, hnumber, hline⟩ := h.exists_ofLine_line
  obtain ⟨hlabel, hbehind⟩ := Token.unlabelled_of_kind (by rw [ht]; exact nofun) (number :: tokens)
  refine ⟨rfl, fun loc => ⟨t :: number :: tokens, hline loc, hlabel, ?_⟩⟩
  have hbig : ¬ 65535 < body.length.toNat * count.toNat := by
    rw [Nat.mul_comm, Nat.not_lt]
    exact h.size body hbody
  rw [hbehind, Instruction.ofTokens_times ht hnumber h.tokens_ne, hbody]
  simp only [Instruction.repeated, (h.holds_copy hbody).1, if_neg hbig]
  rfl

/-- If the copy holds no instruction, then neither line can be passed. -/
theorem run?_eq_none {verbose : Bool} {s : Sweep} {number : Nat} {rest : List Bytes} {fault : Fault}
    (h : Repeats line copy count tokens) (hfault : Instruction.ofTokens tokens = .error fault) :
    s.run? verbose number (line :: rest) = none ∧
      s.run? verbose number (copy :: rest) = none := by
  constructor
  · obtain ⟨t, m, ht, hm, hline⟩ := h.exists_ofLine_line
    obtain ⟨-, hbehind⟩ := Token.unlabelled_of_kind (by rw [ht]; exact nofun) (m :: tokens)
    have hrepeated :
        Instruction.ofTokens (Token.behindLabel (t :: m :: tokens)) = .error fault := by
      rw [hbehind, Instruction.ofTokens_times ht hm h.tokens_ne, hfault]
    refine Sweep.run?_cons_eq_none (hline s.location) ?_ hrepeated
    rw [hbehind]
    exact List.cons_ne_nil t _
  · obtain ⟨-, hbehind⟩ := h.unlabelled
    have hbody : Instruction.ofTokens (Token.behindLabel tokens) = .error fault := by
      rw [hbehind, hfault]
    refine Sweep.run?_cons_eq_none (h.ofLine_copy s.location) ?_ hbody
    rw [hbehind]
    exact h.tokens_ne

/-- **A line and its copies take the sweep on, or neither does**, and then it goes on alike. -/
theorem none_or_some {verbose : Bool} {s : Sweep} {number : Nat} {rest : List Bytes}
    (h : Repeats line copy count tokens) (hreach : s.reach ≤ Sweep.addressSpace) :
    (s.run? verbose number (line :: rest) = none ∧
        s.run? verbose number (List.replicate count.toNat copy ++ rest) = none) ∨
      ∃ body s' t', Instruction.ofTokens tokens = .ok body ∧
        s.run? verbose number (line :: rest) = some s' ∧
        s.run? verbose number (List.replicate count.toNat copy ++ rest) = some t' ∧
        Sweep.Alike (count.toNat - 1)
          (s.statements.toList ++ [⟨number, line, s.location.current, .times count body⟩])
          (s.statements.toList ++
            Statement.row ⟨number, copy, s.location.current, body⟩ count.toNat) s' t' := by
  cases hbody : Instruction.ofTokens tokens with
  | error fault =>
    -- there is a first copy, since there is at least one
    obtain ⟨k, hk⟩ : ∃ k, count.toNat = k + 1 := Nat.exists_eq_succ_of_ne_zero h.toNat_count_ne
    rw [hk, List.replicate_succ, List.cons_append]
    exact .inl ⟨(h.run?_eq_none hbody).1, (h.run?_eq_none hbody).2⟩
  | ok body =>
    rcases Sweep.none_or_some_of_holds (h.holds_line hbody) (h.holds_copy hbody) h.toNat_count_ne
      (h.size body hbody) hreach with hnone | ⟨s', t', hs', ht', halike⟩
    · exact .inl hnone
    · exact .inr ⟨body, s', t', rfl, hs', ht', halike⟩

end Repeats

/-! ### Programs -/

namespace Program

variable {p q : Program} {sts sts' : List Statement} {code : Bytes}

/-- The bytes of some statements are those of their instructions. -/
theorem Encodes.congr (hlabels : q.labels = p.labels) (hstrict : q.strict = p.strict)
    (hsts : sts'.map Statement.instruction = sts.map Statement.instruction)
    (h : p.Encodes sts code) : q.Encodes sts' code := by
  induction h generalizing sts' with
  | nil =>
    obtain rfl : sts' = [] := List.map_eq_nil_iff.mp hsts
    exact .nil
  | @cons st sts own rest hst _ ih =>
    obtain ⟨st', sts', rfl, hst', hsts'⟩ := List.map_eq_cons_iff.mp hsts
    refine .cons ?_ (ih hsts')
    rw [encodeStatement_eq_ok_iff] at hst ⊢
    rw [hst', hlabels, hstrict]
    exact hst

theorem encodes_row {st : Statement} {once : Bytes}
    (h : st.instruction.encode p.strict p.labels = .ok once) (k : Nat) :
    p.Encodes (st.row k) (List.replicate k once).flatten := by
  induction k generalizing st with
  | zero => exact .nil
  | succ k ih =>
    rw [Statement.row, List.replicate_succ, List.flatten_cons]
    exact .cons (encodeStatement_eq_ok_iff.mpr h) (ih h)

theorem Encodes.unique {code' : Bytes} (h : p.Encodes sts code) (h' : p.Encodes sts code') :
    code = code' := by
  have hcode := (h.encodeOnto []).symm.trans (h'.encodeOnto [])
  exact Except.ok.inj hcode

/-- **The program `q` has the copies of a repetition of `p` as statements of their own.**  They come
from the given line; all other statements are the same, but those behind are on later lines. -/
structure Unrolls (number : Nat) (count : UInt16) (body : Instruction) (line : Bytes)
    (p q : Program) : Prop where
  labels : q.labels = p.labels
  strict : q.strict = p.strict
  statements : ∃ before st after, p.statements = before ++ st :: after ∧ st.lineNo = number ∧
    st.instruction = .times count body ∧
    q.statements = before ++ Statement.row ⟨number, line, st.address, body⟩ count.toNat ++
      after.map (Statement.later (count.toNat - 1))

/-- **Both programs have the same machine code.** -/
theorem Unrolls.encode_iff {number : Nat} {count : UInt16} {body : Instruction} {line : Bytes}
    (h : Unrolls number count body line p q) (hcount : count.toNat ≠ 0) :
    p.encode = .ok code ↔ q.encode = .ok code := by
  obtain ⟨before, st, after, hp, -, hst, hq⟩ := h.statements
  have hafter : (after.map (Statement.later (count.toNat - 1))).map Statement.instruction =
      after.map Statement.instruction := by
    rw [List.map_map]
    rfl
  rw [encode_eq_ok_iff, encode_eq_ok_iff, hp, hq]
  constructor
  · intro hcode
    obtain ⟨code₁, _, rfl, hbefore, htail⟩ := hcode.exists_of_append
    cases htail with
    | @cons _ _ own code₃ hown hbehind =>
      rw [encodeStatement_eq_ok_iff, hst, Instruction.encode] at hown
      split at hown
      · rename_i once honce
        obtain rfl := Except.ok.inj hown
        rw [← List.append_assoc]
        refine .append (.append (hbefore.congr h.labels h.strict rfl) (encodes_row ?_ _))
          (hbehind.congr h.labels h.strict hafter)
        rw [h.labels, h.strict]
        exact honce
      · cases hown
  · intro hcode
    obtain ⟨_, code₃, rfl, hfront, hbehind⟩ := hcode.exists_of_append
    obtain ⟨code₁, code₂, rfl, hbefore, hrow⟩ := hfront.exists_of_append
    -- the first of the copies shows that the body can be encoded
    obtain ⟨once, honce⟩ : ∃ once, body.encode q.strict q.labels = .ok once := by
      obtain ⟨k, hk⟩ : ∃ k, count.toNat = k + 1 := Nat.exists_eq_succ_of_ne_zero hcount
      rw [hk, Statement.row] at hrow
      cases hrow with
      | cons hown _ => exact ⟨_, encodeStatement_eq_ok_iff.mp hown⟩
    obtain rfl := hrow.unique (encodes_row honce _)
    rw [List.append_assoc]
    refine .append (hbefore.congr h.labels.symm h.strict.symm rfl) (.cons ?_ ?_)
    · rw [encodeStatement_eq_ok_iff, hst, Instruction.encode, ← h.labels, ← h.strict, honce]
    · exact hbehind.congr h.labels.symm h.strict.symm hafter.symm

end Program

/-! ### Sources -/

namespace Assembler

variable {a : Assembler} {source unrolled line copy : Bytes} {before after : List Bytes}
  {count : UInt16} {tokens : List Token} {p q : Program} {code : Bytes}

/-- The sweep gets through the lines with a repetition and through those with its copies, or through
neither. -/
theorem none_or_unrolls (h : Repeats line copy count tokens) :
    (a.after (before ++ line :: after) = none ∧
        a.after (before ++ (List.replicate count.toNat copy ++ after)) = none) ∨
      ∃ body s t, Instruction.ofTokens tokens = .ok body ∧
        a.after (before ++ line :: after) = some s ∧
        a.after (before ++ (List.replicate count.toNat copy ++ after)) = some t ∧
        Program.Unrolls (before.length + 1) count body copy
          ⟨s.statements.toList, s.labels, a.strict⟩ ⟨t.statements.toList, t.labels, a.strict⟩ := by
  rw [after_append, after_append]
  cases hs : a.after before with
  | none => exact .inl ⟨rfl, rfl⟩
  | some s =>
    rcases h.none_or_some (reach_of_after hs).1 with hnone | ⟨body, s', t', hbody, hs', ht', halike⟩
    · exact .inl hnone
    · obtain ⟨more, hmore, hmore'⟩ := halike.statements
      rw [← List.append_cons] at hmore
      exact .inr ⟨body, s', t', hbody, hs', ht', halike.labels, rfl, _, _, more, hmore, rfl, rfl,
        hmore'⟩

/-- **A source and the source with a repetition unrolled are both accepted, or neither.** -/
theorem error_or_unrolls (hsource : Reading.splitLines source = before ++ line :: after)
    (hunrolled : Reading.splitLines unrolled =
      before ++ (List.replicate count.toNat copy ++ after))
    (hlimit : Reading.fits line = Reading.fits copy)
    (h : Repeats (Reading.dropReturn line) (Reading.dropReturn copy) count tokens) :
    ((∀ p, a.parse source ≠ .ok p) ∧ ∀ q, a.parse unrolled ≠ .ok q) ∨
      ∃ p q body, a.parse source = .ok p ∧ a.parse unrolled = .ok q ∧
        Instruction.ofTokens tokens = .ok body ∧
        Program.Unrolls (before.length + 1) count body (Reading.dropReturn copy) p q := by
  -- both sources have a line that is too long, or neither
  have hfits : (∀ line ∈ Reading.splitLines unrolled, Reading.fits line = true) ↔
      ∀ line ∈ Reading.splitLines source, Reading.fits line = true := by
    rw [hsource, hunrolled, List.forall_mem_append, List.forall_mem_append, List.forall_mem_append,
      List.forall_mem_cons, hlimit]
    simp [List.mem_replicate, h.toNat_count_ne]
  have hlines : (Reading.splitLines source).map Reading.dropReturn =
      before.map Reading.dropReturn ++
        Reading.dropReturn line :: after.map Reading.dropReturn := by
    rw [hsource, List.map_append, List.map_cons]
  have hlines' : (Reading.splitLines unrolled).map Reading.dropReturn =
      before.map Reading.dropReturn ++
        (List.replicate count.toNat (Reading.dropReturn copy) ++ after.map Reading.dropReturn) := by
    rw [hunrolled, List.map_append, List.map_append, List.map_replicate]
  simp only [ne_eq, parse_eq_ok_iff_lines, hfits, hlines, hlines']
  by_cases hall : ∀ line ∈ Reading.splitLines source, Reading.fits line = true
  · rcases none_or_unrolls (a := a) h with ⟨hnone, hnone'⟩ | ⟨body, s, t, hbody, hs, ht, hunrolls⟩
    · refine .inl ⟨?_, ?_⟩
      · rintro p ⟨-, s, hs, -⟩
        cases hnone.symm.trans hs
      · rintro q ⟨-, t, ht, -⟩
        cases hnone'.symm.trans ht
    · rw [List.length_map] at hunrolls
      exact .inr ⟨_, _, body, ⟨hall, s, hs, rfl⟩, ⟨hall, t, ht, rfl⟩, hbody, hunrolls⟩
  · exact .inl ⟨fun p hp => hall hp.1, fun q hq => hall hq.1⟩

/-- **Unrolling a repetition preserves the meaning of a source.**  A line of a source repeats what
another line says.  Replacing it by as many copies of that other line gives a source that is
assembled exactly if the first one is, and to the same machine code; the labels are the same, and so
are the addresses of all other statements.  Both lines are short enough to be read, or neither. -/
theorem assemble_unrolled (a : Assembler) (source unrolled line copy : Bytes)
    (before after : List Bytes) (count : UInt16) (tokens : List Token)
    (hsource : Reading.splitLines source = before ++ line :: after)
    (hunrolled : Reading.splitLines unrolled =
      before ++ (List.replicate count.toNat copy ++ after))
    (hrepeats : Repeats (Reading.dropReturn line) (Reading.dropReturn copy) count tokens)
    (hlimit : Reading.fits line = Reading.fits copy) :
    (∀ code, a.assemble source = .ok code ↔ a.assemble unrolled = .ok code) ∧
      ∀ p q, a.parse source = .ok p → a.parse unrolled = .ok q →
        ∃ body, Instruction.ofTokens tokens = .ok body ∧
          Program.Unrolls (before.length + 1) count body (Reading.dropReturn copy) p q := by
  rcases error_or_unrolls (a := a) hsource hunrolled hlimit hrepeats with
    ⟨hnone, hnone'⟩ | ⟨p, q, body, hp, hq, hbody, hunrolls⟩
  · refine ⟨fun code => ?_, fun p q hp => absurd hp (hnone p)⟩
    rw [assemble_eq_ok_iff, assemble_eq_ok_iff]
    exact ⟨fun ⟨p, hp, _⟩ => absurd hp (hnone p), fun ⟨q, hq, _⟩ => absurd hq (hnone' q)⟩
  · constructor
    · intro code
      simp only [assemble, hp, hq]
      exact hunrolls.encode_iff hrepeats.toNat_count_ne
    · intro p' q' hp' hq'
      obtain rfl := Except.ok.inj (hp.symm.trans hp')
      obtain rfl := Except.ok.inj (hq.symm.trans hq')
      exact ⟨body, hbody, hunrolls⟩

/-- The body of a repetition of repetitions is written out, in front of a jump. -/
theorem assemble_unrolled_nested :
    ∃ (a : Assembler) (source unrolled line copy : Bytes) (before after : List Bytes)
      (tokens : List Token) (p q : Program),
      Reading.splitLines source = before ++ line :: after ∧
      Reading.splitLines unrolled = before ++ (List.replicate (2 : UInt16).toNat copy ++ after) ∧
      Repeats (Reading.dropReturn line) (Reading.dropReturn copy) 2 tokens ∧
      Reading.fits line = Reading.fits copy ∧
      a.parse source = .ok p ∧ a.parse unrolled = .ok q ∧
      Program.Unrolls 2 2 (.times 2 (.byte 0x90)) (Reading.dropReturn copy) p q ∧
      a.assemble unrolled = .ok [0xF4, 0x90, 0x90, 0x90, 0x90, 0xEB, 0xFE] := by
  let source := Bytes.ofString "hlt\ntimes 2 times 2 0x90\nend: jmp end"
  let unrolled := Bytes.ofString "hlt\ntimes 2 0x90\ntimes 2 0x90\nend: jmp end"
  let line := Bytes.ofString "times 2 times 2 0x90"
  let copy := Bytes.ofString "times 2 0x90"
  let last := Bytes.ofString "end"
  let tokens : List Token := [.ofKind .times, .number 2, .byte 0x90]
  let hlt : Statement := ⟨1, Bytes.ofString "hlt", 0, .simple 0xF4⟩
  let jump (number : Nat) : Statement :=
    ⟨number, Bytes.ofString "end: jmp end", 5, .jump 0xEB 5 (.label last)⟩
  let p : Program :=
    ⟨[hlt, ⟨2, line, 1, .times 2 (.times 2 (.byte 0x90))⟩, jump 3],
      LabelTable.empty.bind last 5, false⟩
  let q : Program :=
    ⟨[hlt, ⟨2, copy, 1, .times 2 (.byte 0x90)⟩, ⟨3, copy, 3, .times 2 (.byte 0x90)⟩, jump 4],
      LabelTable.empty.bind last 5, false⟩
  have hp : ({} : Assembler).parse source = .ok p := rfl
  have hq : ({} : Assembler).parse unrolled = .ok q := rfl
  have hcode : ({} : Assembler).assemble source = .ok [0xF4, 0x90, 0x90, 0x90, 0x90, 0xEB, 0xFE] :=
    assemble_eq_ok_iff.mpr ⟨p, hp, rfl⟩
  have hreturn : Reading.dropReturn line = line := rfl
  have hreturn' : Reading.dropReturn copy = copy := rfl
  have hrepeats : Repeats (Reading.dropReturn line) (Reading.dropReturn copy) 2 tokens := by
    rw [hreturn, hreturn']
    exact {
      reads_line := ⟨⟨0, 0⟩, .ofKind .times, .number 2, rfl, rfl, rfl, by decide, by decide, rfl⟩
      reads_copy := ⟨⟨0, 0⟩, rfl⟩
      count_ne := by decide
      tokens_ne := by decide
      start := by decide
      isJump := by decide
      counterFree_line := by decide
      counterFree_copy := by decide
      size := by
        rintro body ⟨⟩
        decide }
  have hlimit : Reading.fits line = Reading.fits copy := by decide
  let before := [Bytes.ofString "hlt"]
  let after := [Bytes.ofString "end: jmp end"]
  have hsource : Reading.splitLines source = before ++ line :: after := rfl
  have hunrolled : Reading.splitLines unrolled =
      before ++ (List.replicate (2 : UInt16).toNat copy ++ after) := rfl
  obtain ⟨hassemble, hunrolls⟩ := assemble_unrolled {} source unrolled line copy before after 2
    tokens hsource hunrolled hrepeats hlimit
  obtain ⟨body, hbody, hpq⟩ := hunrolls p q hp hq
  obtain rfl : .times 2 (.byte 0x90) = body := Except.ok.inj hbody
  exact ⟨{}, source, unrolled, line, copy, before, after, tokens, p, q, hsource, hunrolled,
    hrepeats, hlimit, hp, hq, hpq, (hassemble _).mp hcode⟩

end Assembler

/-! ### Lines that are too long -/

namespace Token

theorem decode_space (line : Bytes) :
    Text.Utf8.decode (0x20 :: line) = ' ' :: Text.Utf8.decode line := by
  rw [Text.Utf8.decode_cons]
  rfl

/-- Blanks in front of a line do not matter. -/
theorem ofLine_spaces (loc : Location) (n : Nat) (line : Bytes) :
    ofLine loc (List.replicate n 0x20 ++ line) = ofLine loc line := by
  induction n with
  | zero => rfl
  | succ n ih =>
    rw [List.replicate_succ, List.cons_append, ← ih]
    unfold ofLine
    rw [decode_space]
    rfl

theorem counterFree_spaces {line : Bytes} (h : CounterFree line) (n : Nat) :
    CounterFree (List.replicate n 0x20 ++ line) := by
  induction n with
  | zero => exact h
  | succ n ih =>
    rw [List.replicate_succ, List.cons_append, CounterFree, decode_space,
      exposed_cons (by decide) (by decide)]
    exact List.not_mem_cons_of_ne_of_not_mem (by decide) ih

end Token

/-- **A copy that is too long to be read.**  With enough blanks in front of it, the copy of a
repetition still has the same tokens, but its source is refused. -/
theorem Assembler.assemble_unrolled_too_long :
    ∃ (a : Assembler) (source unrolled line copy : Bytes) (tokens : List Token),
      Reading.splitLines source = [line] ∧
      Reading.splitLines unrolled = List.replicate (1 : UInt16).toNat copy ∧
      Repeats (Reading.dropReturn line) (Reading.dropReturn copy) 1 tokens ∧
      a.assemble source = .ok [0x90] ∧ ∀ code, a.assemble unrolled ≠ .ok code := by
  let line := Bytes.ofString "times 1 0x90"
  let statement := Bytes.ofString "0x90"
  let tokens : List Token := [.byte 0x90]
  -- any number of blanks that is large enough will do
  obtain ⟨n, hn⟩ : ∃ n, Reading.lineLimit ≤ n := ⟨Reading.lineLimit, Nat.le_refl _⟩
  let copy := List.replicate n 0x20 ++ statement
  have hsplit : Reading.splitLines copy = [copy] := by
    refine Reading.splitLines_eq_singleton (List.append_ne_nil_of_right_ne_nil _ (by decide)) ?_
    rw [List.mem_append, List.mem_replicate]
    rintro (⟨-, hspace⟩ | hmem)
    · exact absurd hspace (by decide)
    · exact absurd hmem (by decide)
  have hreturn : Reading.dropReturn copy = copy := by
    have hlast : copy.getLast? = some 0x30 := by
      rw [List.getLast?_append]
      rfl
    rw [Reading.dropReturn, hlast, if_neg (by decide)]
  have hlong : Reading.fits copy = false := by
    rw [Reading.fits, decide_eq_false_iff_not, List.length_append, List.length_replicate]
    omega
  have hrepeats : Repeats line copy 1 tokens :=
    { reads_line := ⟨⟨0, 0⟩, .ofKind .times, .number 1, rfl, rfl, rfl, by decide, by decide, rfl⟩
      reads_copy := ⟨⟨0, 0⟩, (Token.ofLine_spaces _ n statement).trans rfl⟩
      count_ne := by decide
      tokens_ne := by decide
      start := by decide
      isJump := by decide
      counterFree_line := by decide
      counterFree_copy := Token.counterFree_spaces (by decide) n
      size := by
        rintro body ⟨⟩
        decide }
  refine ⟨{}, line, copy, line, copy, tokens, rfl, hsplit, ?_, rfl, fun code hcode => ?_⟩
  · rw [hreturn]
    exact hrepeats
  · obtain ⟨q, hq, -⟩ := assemble_eq_ok_iff.mp hcode
    have hfits := (parse_eq_ok_iff_lines.mp hq).1 copy (hsplit ▸ List.mem_singleton_self copy)
    rw [hlong] at hfits
    cases hfits

end BootSector
