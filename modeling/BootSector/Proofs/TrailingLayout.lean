import BootSector.Proofs.SilentLines
import Mathlib.Data.List.Forall2

/-!
# Layout at the end of lines

Blanks at the end of a line say nothing, and neither does a comment behind them.  There the scanner
looks ahead: a location counter and a minus sign look at the next character, and words end before
it.  But the next character is a blank in place of the end of the line, and everything that looks
ahead takes the two for the same (`lexeme_append`).  A comment that is already open goes on to the
end of the longer line (`scanOnto_append`).

Bytes at the end of a line may be the beginning of a character.  A blank never completes one, since
its first byte only starts characters (`Utf8.decode_append`), so the line is read as it was and the
layout is read behind it.  A carriage return at the end of a line is dropped when the line is read;
what is then left of the layout is still layout (`trailing_dropReturn`).

So both sweeps run side by side over the two sources, and all that differs is the text of the lines.
-/

namespace BootSector

/-! ### Reading what is put together -/

namespace Text.Utf8

variable {b : UInt8} {bs rest : Bytes} {c : Char} {more : Nat}

/-- What belongs to a character is there. -/
theorem le_length_of_lead? (h : lead? b rest = some (c, more)) : more ≤ rest.length := by
  have hmore {least n k : Nat} (hc : (scalar? least n).map (·, k) = some (c, more)) : more = k := by
    obtain ⟨_, -, hpair⟩ := Option.map_eq_some_iff.mp hc
    exact (Prod.mk.inj hpair).2.symm
  unfold lead? at h
  dsimp only at h
  split_ifs at h
  · rw [hmore h]
    exact Nat.zero_le _
  · split at h
    · obtain ⟨_, -, h⟩ := Option.bind_eq_some_iff.mp h
      simp [hmore h]
    · cases h
  · split at h
    · obtain ⟨_, -, h⟩ := Option.bind_eq_some_iff.mp h
      obtain ⟨_, -, h⟩ := Option.bind_eq_some_iff.mp h
      simp [hmore h]
    · cases h
  · split at h
    · obtain ⟨_, -, h⟩ := Option.bind_eq_some_iff.mp h
      obtain ⟨_, -, h⟩ := Option.bind_eq_some_iff.mp h
      obtain ⟨_, -, h⟩ := Option.bind_eq_some_iff.mp h
      simp [hmore h]
    · cases h

/-- No character starts with a continuation byte. -/
theorem tail?_of_lead? (h : lead? b rest = some (c, more)) : tail? b = none := by
  rw [tail?, if_neg]
  rintro ⟨hlow, hhigh⟩
  unfold lead? at h
  dsimp only at h
  rw [if_neg (by omega), if_pos hhigh] at h
  cases h

/-- Bytes that do not start with a continuation byte complete no character. -/
theorem lead?_append (hbs : ∀ b' ∈ bs.head?, tail? b' = none) (b : UInt8) (rest : Bytes) :
    lead? b (rest ++ bs) = lead? b rest := by
  cases bs with
  | nil => rw [List.append_nil]
  | cons b' bs =>
    have hb' : tail? b' = none := hbs b' rfl
    -- a character has at most three bytes behind the first, and `b'` is one of them or comes later
    rcases rest with _ | ⟨b₁, _ | ⟨b₂, _ | ⟨b₃, rest⟩⟩⟩ <;>
      rcases bs with _ | ⟨x, _ | ⟨y, bs⟩⟩ <;> simp [lead?, hb']

theorem first_append (hbs : ∀ b' ∈ bs.head?, tail? b' = none) (b : UInt8) (rest : Bytes) :
    first b (rest ++ bs) = first b rest ∧ (first b rest).2 ≤ rest.length := by
  rw [first, lead?_append hbs, first]
  refine ⟨rfl, ?_⟩
  split
  · rename_i hlead
    exact le_length_of_lead? hlead
  · exact Nat.zero_le _

/-- **Two byte strings are read one after the other** if the second does not start with a
continuation byte. -/
theorem decode_append (hbs : ∀ b' ∈ bs.head?, tail? b' = none) (front : Bytes) :
    decode (front ++ bs) = decode front ++ decode bs := by
  -- by the length of the bytes, since a character may take several
  induction hlen : front.length using Nat.strong_induction_on generalizing front with
  | _ len ih =>
    cases front with
    | nil => rfl
    | cons b rest =>
      obtain ⟨hfirst, hle⟩ := first_append hbs b rest
      have hshort : (rest.drop (first b rest).2).length < len := by
        rw [← hlen, List.length_drop, List.length_cons]
        omega
      rw [List.cons_append, decode_cons, decode_cons, hfirst, List.drop_append_of_le_length hle,
        ih _ hshort _ rfl, List.cons_append]

theorem tail?_of_mem_head? {cs : List Char} (hne : cs ≠ []) (bs : Bytes) :
    ∀ b' ∈ (Bytes.ofChars cs ++ bs).head?, tail? b' = none := by
  obtain ⟨c, cs, rfl⟩ := List.exists_cons_of_ne_nil hne
  obtain ⟨b, tail, hencode, hlead⟩ := exists_lead?_utf8EncodeChar c []
  intro b' hb'
  rw [Bytes.ofChars_cons, hencode] at hb'
  obtain rfl : b = b' := Option.some.inj hb'
  exact tail?_of_lead? hlead

end Text.Utf8

/-! ### Layout behind the last token -/

namespace Token

variable {loc : Location} {previous : Option Token} {seen tokens : List Token} {c : Char}
  {cs rest ts : List Char} {t? : Option Token} {more : Nat} {line tail : Bytes}

/-- **Layout at the end of a line**: blanks other than the newline, and behind at least one of them
possibly a comment. -/
inductive Trailing : Bytes → Prop where
  | blanks {gap : List Char} (hgap : ∀ c ∈ gap, Text.isBlank c = true) (hline : '\n' ∉ gap) :
    Trailing (Bytes.ofChars gap)
  | comment {gap : List Char} {text : Bytes} (hne : gap ≠ [])
    (hgap : ∀ c ∈ gap, Text.isBlank c = true) (hline : '\n' ∉ gap)
    (htext : Reading.newline ∉ text) : Trailing (Bytes.ofChars gap ++ Bytes.ofAscii ';' :: text)

/-- **Characters that are passed over** behind any others: they start with a blank, stay on the
line, and give no token. -/
structure Idle (ts : List Char) : Prop where
  head : ∀ c ∈ ts.head?, Text.isBlank c = true
  line : '\n' ∉ ts
  passed (loc : Location) (seen : List Token) : scanOnto loc seen 0 ts = .ok seen.reverse

theorem Trailing.silent (h : Trailing tail) : Silent tail := by
  cases h with
  | blanks hgap => exact .blanks hgap
  | comment _ hgap _ htext => exact .comment hgap htext

theorem Trailing.idle (h : Trailing tail) : Idle (Text.Utf8.decode tail) := by
  have hpassed := scanOnto_silent h.silent
  cases h with
  | @blanks gap hgap hline =>
    rw [Text.Utf8.decode_ofChars] at hpassed ⊢
    exact ⟨fun c hc => hgap c (List.mem_of_mem_head? hc), hline, hpassed⟩
  | @comment gap text hne hgap hline htext =>
    obtain ⟨cs, hdecode, hnewline⟩ := exists_decode_comment gap htext
    rw [hdecode] at hpassed ⊢
    refine ⟨fun c hc => ?_, by simp [hline, hnewline], hpassed⟩
    rw [List.head?_append_of_ne_nil _ hne] at hc
    exact hgap c (List.mem_of_mem_head? hc)

/-- The layout is read behind the line, whatever bytes the line ends with. -/
theorem Trailing.decode_append (h : Trailing tail) (line : Bytes) :
    Text.Utf8.decode (line ++ tail) = Text.Utf8.decode line ++ Text.Utf8.decode tail := by
  apply Text.Utf8.decode_append
  cases h with
  | @blanks gap =>
    by_cases hne : gap = []
    · subst hne
      rintro b ⟨⟩
    · have hhead := Text.Utf8.tail?_of_mem_head? hne []
      rwa [List.append_nil] at hhead
  | comment hne => exact Text.Utf8.tail?_of_mem_head? hne _

/-! ### Looking ahead -/

theorem isSign_append (hts : Idle ts) (rest : List Char) :
    isSign previous (rest ++ ts) = isSign previous rest := by
  cases rest with
  | cons d rest => rfl
  | nil =>
    cases ts with
    | nil => rfl
    | cons d ts =>
      -- a blank is no digit
      have hword := isWordChar_of_isBlank (hts.head d rfl)
      have hdigit : Text.isDigit d = false := by
        simp only [isWordChar, Bool.or_eq_false_iff] at hword
        exact hword.2
      simp [isSign, hdigit]

theorem frontWord_append_idle (hts : Idle ts) (cs : List Char) :
    frontWord (cs ++ ts) = frontWord cs := by
  have hnone : ts.takeWhile isWordChar = [] := by
    cases ts with
    | nil => rfl
    | cons d ts =>
      have hd : isWordChar d = false := isWordChar_of_isBlank (hts.head d rfl)
      rw [List.takeWhile_cons_of_neg (by simp [hd])]
  have hword : (cs ++ ts).takeWhile isWordChar = cs.takeWhile isWordChar := by
    rw [List.takeWhile_append, hnone, List.append_nil]
    split
    · rename_i hall
      exact ((List.takeWhile_prefix _).eq_of_length hall).symm
    · rfl
  have hle : (cs.takeWhile isWordChar).length ≤ cs.length :=
    (List.takeWhile_prefix _).length_le
  have hcolon : ts.head? ≠ some ':' := by
    intro hhead
    exact absurd (hts.head ':' hhead) (by decide)
  simp only [frontWord, hword, List.drop_append_of_le_length hle]
  cases cs.drop (cs.takeWhile isWordChar).length with
  | nil => simp [hcolon]
  | cons d rest => rfl

theorem length_frontWord_le (cs : List Char) :
    (frontWord cs).1.length + (if (frontWord cs).2 then 1 else 0) ≤ cs.length := by
  have hle : (cs.takeWhile isWordChar).length ≤ cs.length := (List.takeWhile_prefix _).length_le
  by_cases hcolon : (frontWord cs).2 = true
  · rw [if_pos hcolon]
    have hhead : (cs.drop (cs.takeWhile isWordChar).length).head? = some ':' := by
      simpa [frontWord] using hcolon
    have hne : cs.drop (cs.takeWhile isWordChar).length ≠ [] := by
      intro hnil
      rw [hnil] at hhead
      cases hhead
    have hlt : (cs.takeWhile isWordChar).length < cs.length := by
      simpa [List.drop_eq_nil_iff] using hne
    exact hlt
  · rw [if_neg hcolon]
    exact hle

theorem takeWhile_append_of_lt {p : Char → Bool} (h : (rest.takeWhile p).length < rest.length) :
    (rest ++ ts).takeWhile p = rest.takeWhile p := by
  rw [List.takeWhile_append, if_neg (Nat.ne_of_lt h)]

/-- **A lexeme is the same in front of layout**, unless it is a comment. -/
theorem lexeme_append (hts : Idle ts) (hcomment : c ≠ ';')
    (h : lexeme loc previous c rest = .ok (t?, more)) :
    lexeme loc previous c (rest ++ ts) = .ok (t?, more) ∧ more ≤ rest.length := by
  unfold lexeme at h ⊢
  rw [if_neg hcomment] at h ⊢
  split at h
  · -- a blank
    rename_i hblank
    cases h
    rw [if_pos hblank]
    exact ⟨rfl, Nat.zero_le _⟩
  rename_i hblank
  rw [if_neg hblank]
  split at h
  · -- a string, which is closed in front of the layout
    rename_i hquote
    dsimp only at h
    split at h
    · rename_i hclosed
      cases h
      rw [if_pos hquote]
      dsimp only
      rw [takeWhile_append_of_lt hclosed, if_pos (by rw [List.length_append]; omega)]
      exact ⟨rfl, hclosed⟩
    · cases h
  rename_i hquote
  rw [if_neg hquote]
  split at h
  · -- a location counter
    rename_i hdollar
    rw [if_pos hdollar]
    cases rest with
    | nil =>
      cases h
      refine ⟨?_, Nat.le_refl _⟩
      cases ts with
      | nil => rfl
      | cons d ts =>
        -- the counter stands in front of a blank
        have hd : Text.isBlank d = true := hts.head d rfl
        have hne : d ≠ '$' := by
          rintro rfl
          exact absurd hd (by decide)
        simp [hd, hne]
    | cons d rest =>
      refine ⟨h, ?_⟩
      dsimp only at h
      split_ifs at h <;> cases h <;> simp
  rename_i hdollar
  rw [if_neg hdollar, isSign_append hts, frontWord_append_idle hts, ← List.cons_append,
    frontWord_append_idle hts]
  refine ⟨h, ?_⟩
  split at h
  · -- a number with its sign
    obtain ⟨t, -, heq⟩ := exists_of_map_ofWord h
    cases heq
    exact (List.takeWhile_prefix isWordChar).length_le
  split at h
  · -- a punctuation character
    cases h
    exact Nat.zero_le _
  split at h
  · -- a word, which starts with the character at hand
    obtain ⟨t, -, heq⟩ := exists_of_map_ofWord h
    have hle := length_frontWord_le (c :: rest)
    rw [List.length_cons] at hle
    obtain ⟨-, rfl⟩ := Prod.mk.inj heq
    show (if (frontWord (c :: rest)).2 then (frontWord (c :: rest)).1.length
      else (frontWord (c :: rest)).1.length - 1) ≤ rest.length
    split_ifs at hle ⊢ <;> omega
  · cases h

/-! ### Lines with layout -/

/-- Behind a semicolon, the scanner goes on at the next newline. -/
theorem scanOnto_semicolon (rest : List Char) :
    scanOnto loc seen 0 (';' :: rest) = scanOnto loc seen 0 (rest.dropWhile (· ≠ '\n')) := by
  have hlexeme : lexeme loc seen.head? ';' rest =
      .ok (none, (rest.takeWhile (· ≠ '\n')).length) := by
    rw [lexeme.eq_def, if_pos rfl]
  have hdrop : rest.drop (rest.takeWhile (· ≠ '\n')).length = rest.dropWhile (· ≠ '\n') := by
    have hleft := @List.drop_left _ (rest.takeWhile (· ≠ '\n')) (rest.dropWhile (· ≠ '\n'))
    rwa [List.takeWhile_append_dropWhile] at hleft
  rw [scanOnto, hlexeme]
  dsimp only
  rw [scanOnto_drop, hdrop]

/-- **Layout makes no difference to the scanner.** -/
theorem scanOnto_append (hts : Idle ts) (h : scanOnto loc seen 0 cs = .ok tokens) :
    scanOnto loc seen 0 (cs ++ ts) = .ok tokens := by
  -- by the length of the text, since a lexeme may take several characters
  induction hlen : cs.length using Nat.strong_induction_on generalizing seen cs with
  | _ len ih =>
    cases cs with
    | nil => rw [← h, List.nil_append, hts.passed, scanOnto]
    | cons c rest =>
      by_cases hcomment : c = ';'
      · subst hcomment
        rw [scanOnto_semicolon] at h
        rw [List.cons_append, scanOnto_semicolon, List.dropWhile_append]
        split
        · -- the comment goes on to the end of the layout
          rename_i hend
          have hopen : ts.dropWhile (· ≠ '\n') = [] := by
            rw [List.dropWhile_eq_nil_iff]
            intro c hc
            exact decide_eq_true (ne_of_mem_of_not_mem hc hts.line)
          rw [List.isEmpty_iff.mp hend] at h
          rw [hopen]
          exact h
        · have hshort : (rest.dropWhile (· ≠ '\n')).length < len := by
            rw [← hlen]
            exact Nat.lt_succ_of_le (List.length_dropWhile_le _ rest)
          exact ih _ hshort h rfl
      · rw [scanOnto] at h
        rw [List.cons_append, scanOnto]
        rcases hlexeme : lexeme loc seen.head? c rest with e | ⟨t?, more⟩
        · rw [hlexeme] at h
          cases h
        · obtain ⟨hsame, hle⟩ := lexeme_append hts hcomment hlexeme
          have hshort : (rest.drop more).length < len := by
            rw [← hlen, List.length_drop, List.length_cons]
            omega
          rw [hlexeme] at h
          rw [hsame]
          cases t? with
          | none =>
            dsimp only at h ⊢
            rw [scanOnto_drop] at h
            rw [scanOnto_drop, List.drop_append_of_le_length hle]
            exact ih _ hshort h rfl
          | some t =>
            dsimp only at h ⊢
            rw [scanOnto_drop] at h
            rw [scanOnto_drop, List.drop_append_of_le_length hle]
            exact ih _ hshort h rfl

/-- The second line has the tokens of the first, wherever the first has any. -/
def ReadsLike (line line' : Bytes) : Prop :=
  ∀ loc tokens, ofLine loc line = .ok tokens → ofLine loc line' = .ok tokens

/-- **A line with layout at its end has the same tokens.** -/
theorem readsLike_append (htail : Trailing tail) (line : Bytes) :
    ReadsLike line (line ++ tail) := by
  intro loc tokens h
  rw [ofLine] at h
  cases hscan : scan loc (Text.Utf8.decode line) with
  | error e =>
    rw [hscan] at h
    cases h
  | ok scanned =>
    rw [hscan] at h
    have happend : scan loc (Text.Utf8.decode (line ++ tail)) = .ok scanned := by
      rw [htail.decode_append]
      exact scanOnto_append htail.idle hscan
    rw [ofLine, happend]
    exact h

end Token

/-! ### Carriage returns -/

namespace Reading

open Token

variable {line line' tail : Bytes}

theorem dropReturn_concat (bs : Bytes) : dropReturn (bs ++ [carriageReturn]) = bs := by
  simp [dropReturn]

theorem dropReturn_append (hne : tail ≠ []) (line : Bytes) :
    dropReturn (line ++ tail) = line ++ dropReturn tail := by
  unfold dropReturn
  rw [List.getLast?_append_of_ne_nil _ hne]
  split
  · rw [List.dropLast_append_of_ne_nil hne]
  · rfl

/-- A line ends with a carriage return, or reading drops nothing. -/
theorem exists_return_or (line : Bytes) :
    (∃ body, line = body ++ [carriageReturn]) ∨ dropReturn line = line := by
  unfold dropReturn
  split
  · rename_i hlast
    exact .inl (List.getLast?_eq_some_iff.mp hlast)
  · exact .inr rfl

theorem trailing_nil : Trailing [] := @Trailing.blanks [] (by simp) (by simp)

/-- A carriage return in front of layout is layout. -/
theorem trailing_return (h : Trailing tail) : Trailing (carriageReturn :: tail) := by
  cases h with
  | @blanks gap hgap hline =>
    exact @Trailing.blanks ('\r' :: gap) (by simpa using ⟨by decide, hgap⟩) (by simpa using hline)
  | @comment gap text _ hgap hline htext =>
    exact @Trailing.comment ('\r' :: gap) text (List.cons_ne_nil _ _)
      (by simpa using ⟨by decide, hgap⟩) (by simpa using hline) htext

/-- What reading leaves of layout is layout. -/
theorem trailing_dropReturn (h : Trailing tail) : Trailing (dropReturn tail) := by
  rcases exists_return_or tail with ⟨body, hbody⟩ | hsame
  · rw [hbody, dropReturn_concat]
    cases h with
    | @blanks gap hgap hline =>
      -- the last of the blanks is the carriage return
      have hchars : gap = Text.Utf8.decode body ++ ['\r'] := by
        rw [← Text.Utf8.decode_ofChars gap, hbody]
        exact Text.Utf8.decode_append (by rintro b ⟨⟩; decide) body
      have hbytes : body = Bytes.ofChars (Text.Utf8.decode body) := by
        rw [hchars, Bytes.ofChars_append] at hbody
        exact (List.append_cancel_right hbody).symm
      rw [hbytes]
      rw [hchars] at hgap hline
      exact .blanks (fun c hc => hgap c (List.mem_append_left _ hc))
        (fun hmem => hline (List.mem_append_left _ hmem))
    | @comment gap text hne hgap hline htext =>
      rcases List.eq_nil_or_concat text with rfl | ⟨text, b, rfl⟩
      · -- a comment without text ends with its semicolon
        have hlast := (List.append_inj' hbody rfl).2
        exact absurd hlast (by decide)
      · have hcut : Bytes.ofChars gap ++ Bytes.ofAscii ';' :: text ++ [b] =
            body ++ [carriageReturn] := by
          rw [← hbody]
          simp
        obtain ⟨rfl, -⟩ := List.append_inj' hcut rfl
        exact .comment hne hgap hline fun hmem => htext (by simp [hmem])
  · rw [hsame]
    exact h

/-- **A line with layout at its end.**  The layout may also stand in front of the carriage return
that ends the line. -/
inductive Extends (line : Bytes) : Bytes → Prop where
  | behind {tail : Bytes} (htail : Trailing tail) : Extends line (line ++ tail)
  | within {body tail : Bytes} (hline : line = body ++ [carriageReturn]) (htail : Trailing tail) :
    Extends line (body ++ tail ++ [carriageReturn])

/-- What is read of the longer line is the line and layout. -/
theorem Extends.exists_tail (h : Extends line line') :
    ∃ tail, Trailing tail ∧ dropReturn line' = dropReturn line ++ tail := by
  cases h with
  | within hline htail => exact ⟨_, htail, by rw [hline, dropReturn_concat, dropReturn_concat]⟩
  | @behind tail htail =>
    by_cases hne : tail = []
    · subst hne
      exact ⟨[], trailing_nil, by rw [List.append_nil, List.append_nil]⟩
    rw [dropReturn_append hne]
    rcases exists_return_or line with ⟨body, rfl⟩ | hsame
    · -- the carriage return was dropped, and now stands in front of the layout
      refine ⟨carriageReturn :: dropReturn tail, trailing_return (trailing_dropReturn htail), ?_⟩
      rw [dropReturn_concat, List.append_assoc, List.singleton_append]
    · exact ⟨dropReturn tail, trailing_dropReturn htail, by rw [hsame]⟩

end Reading

/-! ### Programs from other lines -/

/-- **A statement with another line**: it has the same number, address and instruction. -/
structure Statement.Reworded (st st' : Statement) : Prop where
  lineNo : st'.lineNo = st.lineNo
  address : st'.address = st.address
  instruction : st'.instruction = st.instruction

namespace Program

variable {p q : Program} {sts sts' : List Statement}

/-- **A program from other lines.**  The table is the same, the statements differ in their lines
only, and so do the errors of the second sweep. -/
structure Reworded (p q : Program) : Prop where
  labels : q.labels = p.labels
  strict : q.strict = p.strict
  statements : List.Forall₂ Statement.Reworded p.statements q.statements
  /-- The machine code is the same. -/
  code (code : Bytes) : p.encode = .ok code ↔ q.encode = .ok code
  /-- The error is the same, at the same line. -/
  error (number : Nat) (fault : Fault) :
    (∃ line, p.encode = .error (.onLine number line fault)) ↔
      ∃ line, q.encode = .error (.onLine number line fault)

/-- The second sweep does the same with both programs. -/
theorem encodeOnto_reworded (hlabels : q.labels = p.labels) (hstrict : q.strict = p.strict)
    (h : List.Forall₂ Statement.Reworded sts sts') (done : List Bytes) :
    (∃ code, p.encodeOnto done sts = .ok code ∧ q.encodeOnto done sts' = .ok code) ∨
      ∃ number line line' fault, p.encodeOnto done sts = .error (.onLine number line fault) ∧
        q.encodeOnto done sts' = .error (.onLine number line' fault) := by
  induction h generalizing done with
  | nil => exact .inl ⟨_, rfl, rfl⟩
  | @cons st st' sts sts' hst _ ih =>
    rw [encodeOnto, encodeOnto, encodeStatement, encodeStatement, hst.instruction, hst.lineNo,
      hlabels, hstrict]
    cases st.instruction.encode p.strict p.labels with
    | ok code => exact ih (code :: done)
    | error fault => exact .inr ⟨st.lineNo, st.line, st'.line, fault, rfl, rfl⟩

theorem reworded_of_statements (hlabels : q.labels = p.labels) (hstrict : q.strict = p.strict)
    (hstatements : List.Forall₂ Statement.Reworded p.statements q.statements) : p.Reworded q := by
  have hencode := encodeOnto_reworded hlabels hstrict hstatements []
  refine ⟨hlabels, hstrict, hstatements, fun code => ?_, fun number fault => ?_⟩
  · unfold encode
    rcases hencode with ⟨code', hp, hq⟩ | ⟨_, _, _, _, hp, hq⟩ <;> simp [hp, hq]
  · unfold encode
    rcases hencode with ⟨code', hp, hq⟩ | ⟨_, _, _, _, hp, hq⟩ <;> simp [hp, hq]

end Program

namespace Sweep

variable {verbose : Bool} {s s' t : Sweep} {number : Nat} {line line' : Bytes}

/-- **Two states of sweeps over other lines.** -/
structure Reworded (s t : Sweep) : Prop where
  location : t.location = s.location
  reach : t.reach = s.reach
  labels : t.labels = s.labels
  statements : List.Forall₂ Statement.Reworded s.statements.toList t.statements.toList

theorem Reworded.entered (h : Reworded s t) (tokens : List Token) :
    Reworded (s.entered verbose number line tokens) (t.entered verbose number line' tokens) where
  location := by rw [entered_location, entered_location, h.location]
  reach := by rw [entered_reach, entered_reach, h.reach]
  labels := by rw [entered_labels, entered_labels, h.labels, h.location]
  statements := by
    rw [entered_statements, entered_statements]
    exact h.statements

/-- **A line with the same tokens takes the other state on.** -/
theorem Reworded.advances (h : Reworded s t) (hline : Token.ReadsLike line line')
    (hadv : Advances verbose s number line s') :
    ∃ t', Advances verbose t number line' t' ∧ Reworded s' t' := by
  cases hadv with
  | @bare tokens htokens hlabel hrest =>
    exact ⟨_, .bare (h.location ▸ hline _ _ htokens) (h.reach ▸ hlabel) hrest, h.entered tokens⟩
  | @org tokens addr htokens hlabel hi =>
    refine ⟨_, .org (h.location ▸ hline _ _ htokens) (h.reach ▸ hlabel) hi, ?_⟩
    exact ⟨rfl, rfl, (h.entered tokens).labels, (h.entered tokens).statements⟩
  | @place tokens i htokens hlabel hi horg hfits =>
    have htokens' := h.location ▸ hline _ _ htokens
    refine ⟨_, .place htokens' (h.reach ▸ hlabel) hi horg (h.reach ▸ hfits), ?_⟩
    refine ⟨?_, ?_, (h.entered tokens).labels, ?_⟩
    · simp only [h.location]
    · simp only [h.reach]
    · simp only [Array.toList_push, h.location]
      exact List.rel_append h.statements (.cons ⟨rfl, rfl, rfl⟩ .nil)

/-- **Lines with the same tokens take the other state on**, as far as the first. -/
theorem Reworded.run? {lines lines' : List Bytes} (h : Reworded s t)
    (hlines : List.Forall₂ Token.ReadsLike lines lines')
    (hs : s.run? verbose number lines = some s') :
    ∃ t', t.run? verbose number lines' = some t' ∧ Reworded s' t' := by
  induction hlines generalizing s t number with
  | nil =>
    obtain rfl : s = s' := Option.some.inj hs
    exact ⟨t, rfl, h⟩
  | @cons line line' lines lines' hline _ ih =>
    obtain ⟨s₁, hadv, hrest⟩ := run?_cons_eq_some_iff.mp hs
    obtain ⟨t₁, hadv', h₁⟩ := h.advances hline hadv
    obtain ⟨t', ht', h'⟩ := ih h₁ hrest
    exact ⟨t', run?_cons_eq_some_iff.mpr ⟨t₁, hadv', ht'⟩, h'⟩

end Sweep

namespace Assembler

variable {a : Assembler}

/-- A sweep over lines with the same tokens gets as far. -/
theorem exists_reworded {lines lines' : List Bytes} {s : Sweep}
    (hlines : List.Forall₂ Token.ReadsLike lines lines') (h : a.after lines = some s) :
    ∃ t, a.after lines' = some t ∧ s.Reworded t := by
  unfold after at h ⊢
  cases htable : Predefine.table a.evaluate a.origin a.predefines with
  | error e =>
    rw [htable] at h
    cases h
  | ok labels =>
    rw [htable] at h
    have hstart : (Sweep.start a.origin labels).Reworded (Sweep.start a.origin labels) :=
      ⟨rfl, rfl, rfl, .nil⟩
    exact hstart.run? hlines h

/-- **Layout at the end of lines does not matter.**  When a source is accepted, then so is the same
source with blanks, or blanks and a comment, at the end of any of its lines, as long as all lines are
short enough to be read; and the two programs differ in the text of the lines only. -/
theorem reworded_of_extends (a : Assembler) (source extended : Bytes) (p : Program)
    (hparse : a.parse source = .ok p)
    (hlines : List.Forall₂ Reading.Extends (Reading.splitLines source)
      (Reading.splitLines extended))
    (hfits : ∀ line ∈ Reading.splitLines extended, Reading.fits line = true) :
    ∃ q, a.parse extended = .ok q ∧ p.Reworded q := by
  obtain ⟨-, s, hs, rfl⟩ := parse_eq_ok_iff_lines.mp hparse
  have hread : List.Forall₂ Token.ReadsLike ((Reading.splitLines source).map Reading.dropReturn)
      ((Reading.splitLines extended).map Reading.dropReturn) := by
    rw [List.forall₂_map_left_iff, List.forall₂_map_right_iff]
    refine hlines.imp fun line line' hline => ?_
    obtain ⟨tail, htail, hline'⟩ := hline.exists_tail
    rw [hline']
    exact Token.readsLike_append htail _
  obtain ⟨t, ht, hreworded⟩ := exists_reworded hread hs
  refine ⟨⟨t.statements.toList, t.labels, a.strict⟩, ?_, ?_⟩
  · exact parse_eq_ok_iff_lines.mpr ⟨hfits, t, ht, rfl⟩
  · exact Program.reworded_of_statements hreworded.labels rfl hreworded.statements

/-- A location counter at the end of a line, and a comment that ends inside a character.  Layout
comes in front of a carriage return, and behind the comment. -/
theorem reworded_of_extends_counter :
    ∃ (a : Assembler) (source extended : Bytes) (p q : Program), a.parse source = .ok p ∧
      List.Forall₂ Reading.Extends (Reading.splitLines source) (Reading.splitLines extended) ∧
      (∀ line ∈ Reading.splitLines extended, Reading.fits line = true) ∧
      a.parse extended = .ok q ∧ p.Reworded q ∧ q.encode = .ok [0xEB, 0xFE, 0xB0, 0x01] := by
  let first := Bytes.ofString "a: jmp $"
  let second := Bytes.ofString "mov al 0x01 ;" ++ [0xE2, 0x80]
  let gap := Bytes.ofChars ['\u3000'] ++ Bytes.ofAscii ';' :: Bytes.ofString "$\""
  let blanks := Bytes.ofChars [' ', '\u00a0', '\r']
  let source := first ++ [0x0D, 0x0A] ++ second
  let extended := first ++ gap ++ [0x0D, 0x0A] ++ (second ++ blanks ++ [0x0A])
  let p : Program :=
    ⟨[⟨1, first, 0, .jump Opcode.jmp 0 (.address 0)⟩, ⟨2, second, 2, .moveByte 0 1⟩],
      LabelTable.empty.bind (Bytes.ofString "a") 0, false⟩
  have hparse : ({} : Assembler).parse source = .ok p := rfl
  have hcode : p.encode = .ok [0xEB, 0xFE, 0xB0, 0x01] := rfl
  have hsource : Reading.splitLines source = [first ++ [0x0D], second] := by decide +kernel
  have hextended : Reading.splitLines extended = [first ++ gap ++ [0x0D], second ++ blanks] := by
    decide +kernel
  have hlines : List.Forall₂ Reading.Extends (Reading.splitLines source)
      (Reading.splitLines extended) := by
    have hgap : Token.Trailing gap :=
      .comment (List.cons_ne_nil _ _) (List.all_eq_true.mp (by decide)) (by decide) (by decide)
    have hblanks : Token.Trailing blanks := .blanks (List.all_eq_true.mp (by decide)) (by decide)
    rw [hsource, hextended]
    exact .cons (.within rfl hgap) (.cons (.behind hblanks) .nil)
  have hfits : ∀ line ∈ Reading.splitLines extended, Reading.fits line = true := by
    rw [hextended]
    decide
  obtain ⟨q, hq, hreworded⟩ := reworded_of_extends {} source extended p hparse hlines hfits
  exact ⟨{}, source, extended, p, q, hparse, hlines, hfits, hq, hreworded,
    (hreworded.code _).mp hcode⟩

end Assembler

end BootSector
