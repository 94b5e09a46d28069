import BootSector.Text.Blank
import BootSector.Text.Digit
import BootSector.Text.Letter
import BootSector.Text.LowerCase
import BootSector.Token

/-!
# Reading a line as tokens

The characters of a line are read from left to right.  At each place `lexeme` tells which token
starts there, or that a blank or a comment does, and how many further characters belong to it;
`scan` moves on by that much.  Two things depend on more than the characters: `$` and `$$` stand for
the location counters, and a minus sign in front of a digit belongs to the number unless an operand
stands before it.
-/

namespace BootSector

/-- **The location counters** while a line is read. -/
structure Location where
  /-- The start of the current segment, written `$$`. -/
  start : UInt16
  /-- The address of the line's statement, written `$`. -/
  current : UInt16
  deriving DecidableEq, Repr

namespace Token

/-! ### Words -/

/-- May `c` be part of a word? -/
def isWordChar (c : Char) : Bool := c == '_' || Text.isLetter c || Text.isDigit c

/-- A byte from the eight digits of a binary literal. -/
def ofBinary (digits : List Char) : Except Fault Token :=
  if digits.all (fun c => c == '0' || c == '1') then
    if digits.length < 8 then .error .incompleteByte
    else if digits.length = 8 then
      .ok (byte (UInt8.ofNat ((Text.digitsOnto? 2 0 digits).getD 0)))
    else .error .malformedByte
  else .error .malformedByte

/-- A byte from the two digits of a hexadecimal literal, or a number from four. -/
def ofHex (digits : List Char) : Except Fault Token :=
  match Text.digitsOnto? 16 0 digits with
  | some n =>
    if digits.length = 2 then .ok (byte (UInt8.ofNat n))
    else if digits.length = 4 then .ok (number (Int32.ofNat n))
    else .error .invalidHex
  | none => .error .invalidHex

/-- A number from a decimal literal, which has to be below 2³¹. -/
def ofDecimal (word : List Char) : Except Fault Token :=
  match Text.numeral? 10 word with
  | some n =>
    if n < 0x80000000 then .ok (number (Int32.ofNat n))
    else .error (.notNumber (Bytes.ofChars word))
  | none => .error (.notNumber (Bytes.ofChars word))

/-- The token of a literal: a word that starts with a digit. -/
def ofLiteral (word : List Char) : Except Fault Token :=
  match word.map Text.toLower with
  | '0' :: 'b' :: digits => ofBinary digits
  | '0' :: 'x' :: digits => ofHex digits
  | _ => ofDecimal word

/-- The token of a name: a mnemonic or register in any case of its letters, else a reference. -/
def ofName (loc : Location) (word : List Char) : Token :=
  let lower := Bytes.ofChars (word.map Text.toLower)
  match mnemonic? lower with
  | some kind =>
    if kind = .jz ∨ kind = .jmp then jump kind loc.current else ofKind kind
  | none => (ofRegister? lower).getD (reference (Bytes.ofChars word))

/-- The token of a word, which may have a colon behind it. -/
def ofWord (loc : Location) (word : List Char) (colon : Bool) : Except Fault Token :=
  match word with
  | [] => .error .unexpectedCharacter
  | c :: _ =>
    if Text.isDigit c then
      if colon then .error .unexpectedCharacter else ofLiteral word
    else if colon then .ok (label (Bytes.ofChars word))
    else .ok (ofName loc word)

/-- The word at the front of a text, and whether a colon follows it. -/
def frontWord (cs : List Char) : List Char × Bool :=
  let word := cs.takeWhile isWordChar
  (word, (cs.drop word.length).head? == some ':')

/-! ### Lexemes -/

/-- Does a minus sign belong to the number that `rest` starts with? -/
def isSign (previous : Option Token) (rest : List Char) : Bool :=
  rest.head?.any Text.isDigit && !previous.any (fun t => t.isValue || t.kind == .closeParen)

/-- The token of a punctuation character. -/
def punctuation? : Char → Option TokenKind
  | '(' => some .openParen
  | ')' => some .closeParen
  | '+' => some .plus
  | '*' => some .multiply
  | '-' => some .minus
  | _ => none

/-- **What starts at character `c`**, with `rest` behind it: a token, or none for a blank or a
comment; and how many characters of `rest` belong to it. -/
def lexeme (loc : Location) (previous : Option Token) (c : Char) (rest : List Char) :
    Except Fault (Option Token × Nat) :=
  if c = ';' then .ok (none, (rest.takeWhile (· ≠ '\n')).length)
  else if Text.isBlank c then .ok (none, 0)
  else if c = '"' then
    let text := rest.takeWhile (· ≠ '"')
    if text.length < rest.length then .ok (some (string (Bytes.ofChars text)), text.length + 1)
    else .error .unterminatedString
  else if c = '$' then
    match rest with
    | [] => .ok (some (number (Int32.ofNat loc.current.toNat)), 0)
    | d :: _ =>
      if d = '$' then .ok (some (number (Int32.ofNat loc.start.toNat)), 1)
      else if Text.isBlank d then .ok (some (number (Int32.ofNat loc.current.toNat)), 0)
      else .error .unexpectedCharacter
  else if c = '-' ∧ isSign previous rest then
    let (word, colon) := frontWord rest
    (ofWord loc word colon).map fun t => (some (number (-t.value)), word.length)
  else match punctuation? c with
    | some kind => .ok (some (ofKind kind), 0)
    | none =>
      if isWordChar c then
        let (word, colon) := frontWord (c :: rest)
        (ofWord loc word colon).map fun t =>
          (some t, if colon then word.length else word.length - 1)
      else .error .unexpectedCharacter

/-! ### Lines -/

/-- Puts the tokens of a text, after skipping the given number of characters, behind those in
`seen`, which holds the latest first. -/
def scanOnto (loc : Location) (seen : List Token) : Nat → List Char → Except Fault (List Token)
  | _, [] => .ok seen.reverse
  | 0, c :: rest =>
    match lexeme loc seen.head? c rest with
    | .error e => .error e
    | .ok (some t, more) => scanOnto loc (t :: seen) more rest
    | .ok (none, more) => scanOnto loc seen more rest
  | skip + 1, _ :: rest => scanOnto loc seen skip rest

/-- The tokens of a text, before arithmetic is folded. -/
def scan (loc : Location) (cs : List Char) : Except Fault (List Token) := scanOnto loc [] 0 cs

end Token

end BootSector
