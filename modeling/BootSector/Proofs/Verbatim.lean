import BootSector.Proofs.FirstFault
import BootSector.Proofs.Padding
import BootSector.Proofs.SilentLines

/-!
# Texts that reach the machine code unchanged

The line `times n "s"` emits `n` copies of the bytes of `s`.  On the way, the bytes are read as
characters, the scanner cuts out those between the quotes, and their bytes are written again.

* Reading loses no byte (`flatMap_bytes_units`), and a well-formed text is nothing but characters, so
  writing them gives its bytes back (`ofChars_decode`).
* Between quotes the scanner looks for the closing quote only, so nothing in the text is a comment,
  a location counter or a mnemonic (`ofLine_textLine`).
* Every size is counted in bytes: the size of the text, the limit of a repetition, the room that is
  left in the segment (`exists_after_textLine`).
-/

namespace BootSector

/-! ### Reading and writing characters -/

namespace Text.Utf8

variable {b : UInt8} {bs rest : Bytes} {c : Char} {more : Nat}

theorem toNat_of_tail? {t : Nat} (h : tail? b = some t) : b.toNat = t + 0x80 ∧ t < 64 := by
  unfold tail? at h
  split at h
  · have ht : b.toNat - 0x80 = t := Option.some.inj h
    omega
  · cases h

theorem ofNat_of_eq_toNat {n : Nat} (h : n = b.toNat) : UInt8.ofNat n = b := by
  rw [h, UInt8.ofNat_toNat]

/-- **The bytes that are read as a character are the bytes of the character.** -/
theorem utf8EncodeChar_of_lead? (h : lead? b rest = some (c, more)) :
    String.utf8EncodeChar c ++ rest.drop more = b :: rest := by
  have hlt := toNat_lt c
  have hval : c.val.toNat = c.toNat := rfl
  have hread {least n k : Nat} (hc : (scalar? least n).map (·, k) = some (c, more)) :
      c.toNat = n ∧ least ≤ n ∧ more = k := by
    obtain ⟨c', hc', hpair⟩ := Option.map_eq_some_iff.mp hc
    obtain ⟨rfl, rfl⟩ := Prod.mk.inj hpair
    obtain ⟨hn, hle⟩ := toNat_of_scalar? hc'
    exact ⟨hn, hle, rfl⟩
  simp only [String.utf8EncodeChar.eq_def, hval]
  unfold lead? at h
  dsimp only at h
  split_ifs at h with hone htail htwo hthree hfour
  · obtain ⟨hn, -, rfl⟩ := hread h
    rw [if_pos (by omega), ofNat_of_eq_toNat hn]
    rfl
  · split at h
    · rename_i b₁ rest
      obtain ⟨t₁, ht₁, h⟩ := Option.bind_eq_some_iff.mp h
      obtain ⟨hb₁, hlt₁⟩ := toNat_of_tail? ht₁
      obtain ⟨hn, hle, rfl⟩ := hread h
      have hfirst : c.toNat / 64 % 32 + 192 = b.toNat := by omega
      have hlast : c.toNat % 64 + 128 = b₁.toNat := by omega
      rw [if_neg (by omega), if_pos (by omega), ofNat_of_eq_toNat hfirst, ofNat_of_eq_toNat hlast]
      rfl
    · cases h
  · split at h
    · rename_i b₁ b₂ rest
      obtain ⟨t₁, ht₁, h⟩ := Option.bind_eq_some_iff.mp h
      obtain ⟨t₂, ht₂, h⟩ := Option.bind_eq_some_iff.mp h
      obtain ⟨hb₁, hlt₁⟩ := toNat_of_tail? ht₁
      obtain ⟨hb₂, hlt₂⟩ := toNat_of_tail? ht₂
      obtain ⟨hn, hle, rfl⟩ := hread h
      have hfirst : c.toNat / 4096 % 16 + 224 = b.toNat := by omega
      have hmiddle : c.toNat / 64 % 64 + 128 = b₁.toNat := by omega
      have hlast : c.toNat % 64 + 128 = b₂.toNat := by omega
      rw [if_neg (by omega), if_neg (by omega), if_pos (by omega), ofNat_of_eq_toNat hfirst,
        ofNat_of_eq_toNat hmiddle, ofNat_of_eq_toNat hlast]
      rfl
    · cases h
  · split at h
    · rename_i b₁ b₂ b₃ rest
      obtain ⟨t₁, ht₁, h⟩ := Option.bind_eq_some_iff.mp h
      obtain ⟨t₂, ht₂, h⟩ := Option.bind_eq_some_iff.mp h
      obtain ⟨t₃, ht₃, h⟩ := Option.bind_eq_some_iff.mp h
      obtain ⟨hb₁, hlt₁⟩ := toNat_of_tail? ht₁
      obtain ⟨hb₂, hlt₂⟩ := toNat_of_tail? ht₂
      obtain ⟨hb₃, hlt₃⟩ := toNat_of_tail? ht₃
      obtain ⟨hn, hle, rfl⟩ := hread h
      have hfirst : c.toNat / 262144 % 8 + 240 = b.toNat := by omega
      have hsecond : c.toNat / 4096 % 64 + 128 = b₁.toNat := by omega
      have hthird : c.toNat / 64 % 64 + 128 = b₂.toNat := by omega
      have hlast : c.toNat % 64 + 128 = b₃.toNat := by omega
      rw [if_neg (by omega), if_neg (by omega), if_neg (by omega), ofNat_of_eq_toNat hfirst,
        ofNat_of_eq_toNat hsecond, ofNat_of_eq_toNat hthird, ofNat_of_eq_toNat hlast]
      rfl
    · cases h

/-- **Reading loses nothing**: the units of a byte string have its bytes. -/
theorem flatMap_bytes_units (bs : Bytes) : (units bs).flatMap Unit.bytes = bs := by
  -- by the length of the bytes, since a character may take several
  induction hlen : bs.length using Nat.strong_induction_on generalizing bs with
  | _ len ih =>
    cases bs with
    | nil => rfl
    | cons b rest =>
      have hshort : (rest.drop (first b rest).2).length < len := by
        rw [← hlen, List.length_drop, List.length_cons]
        omega
      rw [units_cons, List.flatMap_cons, ih _ hshort _ rfl, first]
      split
      · rename_i c more hlead
        exact utf8EncodeChar_of_lead? hlead
      · rfl

/-- **A well-formed text is written as it was read.** -/
theorem ofChars_decode (h : isValid bs = true) : Bytes.ofChars (decode bs) = bs := by
  have hunits : ∀ u ∈ units bs, String.utf8EncodeChar u.toChar = u.bytes := by
    intro u hu
    have hvalid := List.all_eq_true.mp h u hu
    cases u with
    | char c => rfl
    | stray b => cases hvalid
  calc Bytes.ofChars (decode bs)
      = (units bs).flatMap fun u => String.utf8EncodeChar u.toChar := List.flatMap_map _ _ _
    _ = (units bs).flatMap Unit.bytes := List.flatMap_congr hunits
    _ = bs := flatMap_bytes_units bs

/-- An ASCII byte of a character is the character. -/
theorem toNat_of_mem_utf8EncodeChar (hb : b.toNat < 0x80) (h : b ∈ String.utf8EncodeChar c) :
    c.toNat = b.toNat := by
  have hlt := toNat_lt c
  have hval : c.val.toNat = c.toNat := rfl
  simp only [String.utf8EncodeChar.eq_def, hval] at h
  -- all bytes of a longer character are at least `0x80`
  have hbyte {n : Nat} (hn : n < 256) (heq : b = UInt8.ofNat n) : b.toNat = n := by
    rw [heq, toNat_ofNat_of_lt hn]
  split_ifs at h <;> simp only [List.mem_cons, List.not_mem_nil, or_false] at h
  · exact (hbyte (by omega) h).symm
  · rcases h with h | h <;> have := hbyte (by omega) h <;> omega
  · rcases h with h | h | h <;> have := hbyte (by omega) h <;> omega
  · rcases h with h | h | h | h <;> have := hbyte (by omega) h <;> omega

end Text.Utf8

/-! ### The line -/

namespace Token

variable {loc : Location} {text : Bytes} {count : Nat}

/-- **The line that emits a text** a number of times. -/
def textLine (count : Nat) (text : Bytes) : Bytes :=
  Bytes.ofString "times " ++ Bytes.ofChars (Text.decimal count) ++ Bytes.ofString " \"" ++ text ++
    [Bytes.ofAscii '"']

/-- The tokens of the line. -/
def textTokens (count : Nat) (text : Bytes) : List Token :=
  [ofKind .times, number (Int32.ofNat count), string text]

theorem textLine_eq_rendered (hcount : count ≤ 65535) :
    textLine count text = rendered (textTokens count text) := by
  have hvalue : (Int32.ofNat count).toInt = count := Int32.toInt_ofNat_of_lt (by omega)
  have hnumber : surface (number (Int32.ofNat count)) = Bytes.ofChars (Text.decimal count) := by
    show Bytes.ofChars (Text.signedDecimal (Int32.ofNat count).toInt) = _
    rw [hvalue, Text.signedDecimal, if_neg (by omega)]
    rfl
  have htimes : surface (ofKind .times) = Bytes.ofString "times" := by decide
  have hstring : surface (string text) =
      Bytes.ofAscii '"' :: text ++ [Bytes.ofAscii '"'] := rfl
  have hfirst : Bytes.ofString "times " = Bytes.ofString "times" ++ [Bytes.ofAscii ' '] := by decide
  have hopen : Bytes.ofString " \"" = [Bytes.ofAscii ' ', Bytes.ofAscii '"'] := by decide
  rw [rendered, textTokens, List.map_cons, List.map_cons, List.map_singleton, htimes, hnumber,
    hstring, List.intercalate_cons_cons, List.intercalate_cons_cons, List.intercalate_singleton,
    textLine, hfirst, hopen]
  simp only [List.append_assoc, List.cons_append, List.nil_append]

/-- **The line is read as a repetition of the text**, whatever characters the text holds. -/
theorem ofLine_textLine (hvalid : Text.Utf8.isValid text = true)
    (hquote : Bytes.ofAscii '"' ∉ text) (hcount : count ≤ 65535) :
    ofLine loc (textLine count text) = .ok (textTokens count text) := by
  have hvalue : (Int32.ofNat count).toInt = count := Int32.toInt_ofNat_of_lt (by omega)
  have htext : Bytes.ofChars (Text.Utf8.decode text) = text := Text.Utf8.ofChars_decode hvalid
  have hchars : '"' ∉ Text.Utf8.decode text := fun hmem =>
    hquote (Text.Utf8.ofAscii_mem_of_decode (by decide) hmem)
  have hmnemonic : (Bytes.ofString "times", TokenKind.times) ∈ mnemonics := by decide
  have hstring : Written loc (string text) := by
    rw [← htext]
    exact .string hchars
  have hwritten : ∀ t ∈ textTokens count text, Written loc t := by
    rw [textTokens, List.forall_mem_cons, List.forall_mem_cons, List.forall_mem_singleton]
    exact ⟨.mnemonic hmnemonic (by decide), .number (by omega), hstring⟩
  have hsigns : (textTokens count text).IsChain MayFollow := by
    -- the count is not negative
    have hnumber : MayFollow (ofKind .times) (number (Int32.ofNat count)) := by
      intro _ hneg
      change (Int32.ofNat count).toInt < 0 at hneg
      omega
    have hlast : MayFollow (number (Int32.ofNat count)) (string text) := by
      rintro ⟨⟩
    exact .cons_cons hnumber (.cons_cons hlast (.singleton _))
  have hscan : scan loc (Text.Utf8.decode (textLine count text)) =
      .ok (textTokens count text) := by
    rw [textLine_eq_rendered hcount]
    exact scanOnto_rendered hwritten hsigns (by rintro u ⟨⟩)
  rw [ofLine, hscan]
  exact fold_eq_self fun t ht => kind_ne_openParen_of_written (hwritten t ht)

/-- The line has no newline if the text has none. -/
theorem newline_not_mem_textLine (h : Reading.newline ∉ text) :
    Reading.newline ∉ textLine count text := by
  have hdigits : Reading.newline ∉ Bytes.ofChars (Text.decimal count) := by
    intro hmem
    obtain ⟨c, hc, hbyte⟩ := List.mem_flatMap.mp hmem
    have hnat : c.toNat = 10 := Text.Utf8.toNat_of_mem_utf8EncodeChar (by decide) hbyte
    have hdigit := Text.isDigit_of_mem_decimal hc
    rw [← Char.ofNat_toNat c, hnat] at hdigit
    exact absurd hdigit (by decide)
  have htimes : Reading.newline ∉ Bytes.ofString "times " := by decide
  have hspace : Reading.newline ∉ Bytes.ofString " \"" := by decide
  have hclose : Reading.newline ∉ [Bytes.ofAscii '"'] := by decide
  simp only [textLine, List.mem_append, not_or]
  exact ⟨⟨⟨⟨htimes, hdigits⟩, hspace⟩, h⟩, hclose⟩

theorem length_le_length_textLine (count : Nat) (text : Bytes) :
    text.length ≤ (textLine count text).length := by
  simp only [textLine, List.length_append]
  omega

end Token

/-! ### The instruction -/

namespace Instruction

variable {text : Bytes} {count : Nat}

/-- The instruction that emits a text a number of times. -/
def repeatedText (count : Nat) (text : Bytes) : Instruction :=
  .times (UInt16.ofNat count) (.text text)

theorem toNat_length_text (h : text.length ≤ 65535) :
    (Instruction.text text).length.toNat = text.length :=
  UInt16.toNat_ofNat_of_lt' (show text.length < 65536 by omega)

theorem ofTokens_textTokens (hcount : count ≤ 65535) (htext : text.length ≤ 65535)
    (hsize : count * text.length ≤ 65535) :
    ofTokens (Token.textTokens count text) = .ok (repeatedText count text) := by
  have hfits : (Instruction.text text).length.toNat * (UInt16.ofNat count).toNat ≤ 65535 := by
    rw [toNat_length_text htext, UInt16.toNat_ofNat_of_lt' (show count < 65536 by omega),
      Nat.mul_comm]
    exact hsize
  exact ofTokens_of_reads (.times rfl (isWord_ofNat hcount) (.text rfl htext) rfl hfits)

theorem toNat_length_repeatedText (hcount : count ≤ 65535) (htext : text.length ≤ 65535)
    (hsize : count * text.length ≤ 65535) :
    (repeatedText count text).length.toNat = count * text.length := by
  rw [toNat_length_of_ofTokens (ofTokens_textTokens hcount htext hsize)]
  show text.length * (UInt16.ofNat count).toNat = count * text.length
  rw [UInt16.toNat_ofNat_of_lt' (show count < 65536 by omega), Nat.mul_comm]

theorem encode_repeatedText (hcount : count ≤ 65535) (strict : Bool) (labels : LabelTable) :
    (repeatedText count text).encode strict labels = .ok (List.replicate count text).flatten := by
  show Except.ok (List.replicate (UInt16.ofNat count).toNat text).flatten = _
  rw [UInt16.toNat_ofNat_of_lt' (show count < 65536 by omega)]

end Instruction

/-! ### The source -/

namespace Reading

variable {text source : Bytes} {count : Nat}

theorem dropReturn_textLine (count : Nat) (text : Bytes) :
    dropReturn (Token.textLine count text) = Token.textLine count text := by
  have hlast : (Token.textLine count text).getLast? = some (Bytes.ofAscii '"') := by
    rw [Token.textLine, List.getLast?_append]
    rfl
  rw [dropReturn, hlast, if_neg (by decide)]

/-- The line is the only one of its source, with or without a newline at the end. -/
theorem splitLines_textLine (h : newline ∉ text)
    (hsource : source = Token.textLine count text ∨
      source = Token.textLine count text ++ [newline]) :
    splitLines source = [Token.textLine count text] := by
  have hline : newline ∉ Token.textLine count text := Token.newline_not_mem_textLine h
  rcases hsource with rfl | rfl
  · exact splitLines_eq_singleton (List.append_ne_nil_of_right_ne_nil _ (by decide)) hline
  · rw [splitLines_append_newline hline]
    rfl

end Reading

namespace Assembler

open Token

variable {a : Assembler} {labels : LabelTable} {text : Bytes} {count : Nat}

/-- The statement of the line, at the origin. -/
def textStatement (a : Assembler) (count : Nat) (text : Bytes) : Statement :=
  ⟨1, textLine count text, a.origin, Instruction.repeatedText count text⟩

/-- **The sweep places the line** at the origin. -/
theorem exists_after_textLine
    (hlabels : Predefine.table a.evaluate a.origin a.predefines = .ok labels)
    (hvalid : Text.Utf8.isValid text = true) (hquote : Bytes.ofAscii '"' ∉ text)
    (hcount : count ≤ 65535) (htext : text.length ≤ 65535) (hsize : count * text.length ≤ 65535)
    (hend : a.origin.toNat + count * text.length ≤ 65536) :
    ∃ s, a.after [textLine count text] = some s ∧
      s.statements.toList = [a.textStatement count text] := by
  have htokens : ofLine (Sweep.start a.origin labels).location (textLine count text) =
      .ok (textTokens count text) := ofLine_textLine hvalid hquote hcount
  have hfits : (Sweep.start a.origin labels).reach +
      (Instruction.repeatedText count text).length.toNat ≤ Sweep.addressSpace := by
    rw [Instruction.toNat_length_repeatedText hcount htext hsize]
    exact hend
  have hafter {s : Sweep} (hadv : (Sweep.start a.origin labels).Advances a.verbose 1
      (textLine count text) s) : a.after [textLine count text] = some s := by
    unfold after
    rw [hlabels]
    exact Sweep.run?_cons_eq_some_iff.mpr ⟨s, hadv, rfl⟩
  exact ⟨_, hafter (.place htokens (fun hsome => by cases hsome)
    (Instruction.ofTokens_textTokens hcount htext hsize) rfl hfits), Array.toList_push⟩

/-- **Texts reach the machine code unchanged.**  A source with the one line `times n "s"`, where `s`
is a well-formed text without a quote or a newline, is assembled to `n` copies of the bytes of `s`,
as long as the line can be read and the copies fit.  The size of the statement is counted in
bytes. -/
theorem assemble_verbatim (a : Assembler) (labels : LabelTable) (text source : Bytes) (count : Nat)
    (hlabels : Predefine.table a.evaluate a.origin a.predefines = .ok labels)
    (hvalid : Text.Utf8.isValid text = true) (hquote : Bytes.ofAscii '"' ∉ text)
    (hnewline : Reading.newline ∉ text)
    (hsource : source = textLine count text ∨ source = textLine count text ++ [Reading.newline])
    (hline : Reading.fits (textLine count text) = true) (hcount : count ≤ 65535)
    (hsize : count * text.length ≤ 65535)
    (hend : a.origin.toNat + count * text.length ≤ 65536) :
    a.assemble source = .ok (List.replicate count text).flatten ∧
      ∃ p st, a.parse source = .ok p ∧ p.statements = [st] ∧ st.line = textLine count text ∧
        st.address = a.origin ∧ st.length.toNat = count * text.length := by
  have htext : text.length ≤ 65535 := by
    have hlength := length_le_length_textLine count text
    have hlimit : (textLine count text).length < 65536 := of_decide_eq_true hline
    omega
  have hsplit := Reading.splitLines_textLine hnewline hsource
  obtain ⟨s, hs, hstatements⟩ :=
    exists_after_textLine hlabels hvalid hquote hcount htext hsize hend
  have hparse : a.parse source = .ok ⟨s.statements.toList, s.labels, a.strict⟩ := by
    refine parse_eq_ok_iff_lines.mpr ⟨?_, s, ?_, rfl⟩
    · rw [hsplit, List.forall_mem_singleton]
      exact hline
    · rw [hsplit, List.map_singleton, Reading.dropReturn_textLine]
      exact hs
  refine ⟨assemble_eq_ok_iff.mpr ⟨_, hparse, ?_⟩, _, a.textStatement count text, hparse,
    hstatements, rfl, rfl, Instruction.toNat_length_repeatedText hcount htext hsize⟩
  rw [Program.encode, hstatements, Program.encodeOnto, Program.encodeStatement, textStatement,
    Instruction.encode_repeatedText hcount]
  exact congrArg Except.ok (List.append_nil _)

/-- Three copies of a text with a comment sign, a location counter, a mnemonic and a carriage return
fill the address space up to its end.  The text has nine characters and ten bytes. -/
theorem assemble_verbatim_to_end :
    ∃ (a : Assembler) (text source : Bytes),
      text = Bytes.ofString "é;$( mov\r" ∧ source = Bytes.ofString "times 3 \"é;$( mov\r\"\n" ∧
      a.origin.toNat + 3 * text.length = 65536 ∧
      a.assemble source = .ok (text ++ (text ++ text)) ∧
      ∃ p st, a.parse source = .ok p ∧ p.statements = [st] ∧ st.length.toNat = 30 := by
  let a : Assembler := { origin := 0xFFE2 }
  let text := Bytes.ofString "é;$( mov\r"
  have hsource : Bytes.ofString "times 3 \"é;$( mov\r\"\n" =
      textLine 3 text ++ [Reading.newline] := by decide
  obtain ⟨hassemble, p, st, hparse, hst, -, -, hlength⟩ :=
    assemble_verbatim a LabelTable.empty text _ 3 rfl (by decide +kernel) (by decide) (by decide)
      (.inr hsource) (by decide) (by decide) (by decide) (by decide)
  exact ⟨a, text, _, rfl, rfl, rfl, hassemble, p, st, hparse, hst, hlength⟩

end Assembler

end BootSector
