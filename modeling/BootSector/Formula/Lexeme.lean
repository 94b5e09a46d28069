import BootSector.Text.Decimal
import BootSector.Text.Letter
import BootSector.Text.Utf8

/-!
# The lexemes of a formula

A formula is read character by character, much like a source line: `lexeme?` tells which lexeme
starts at a place and how many further characters belong to it.  Line ends count only outside
brackets and on lines that hold something; a backslash at the end of a line joins it to the next; a
line that starts with a blank is refused, because indentation has no meaning in a formula.
-/

namespace BootSector.Formula

/-- The reserved words. -/
inductive Keyword where
  | andWord
  | orWord
  | notWord
  | inWord
  | ifWord
  | elseWord
  /-- A word that is reserved but has no use in a formula. -/
  | other
  deriving DecidableEq, Repr

/-- The operators, brackets and other marks. -/
inductive Mark where
  | plus
  | minus
  | star
  | slash
  | slashSlash
  | percent
  | ampersand
  | bar
  | caret
  | tilde
  | shiftLeft
  | shiftRight
  | less
  | greater
  | lessEqual
  | greaterEqual
  | equal
  | notEqual
  | openParen
  | closeParen
  | openBracket
  | closeBracket
  | comma
  | assign
  /-- A mark that has no use in a formula. -/
  | other
  deriving DecidableEq, Repr

/-- **A lexeme of a formula.** -/
inductive Lexeme where
  /-- The end of a line. -/
  | newline
  /-- An integer. -/
  | int (n : Nat)
  /-- A number with a fraction or an exponent. -/
  | decimal (d : Text.Decimal)
  /-- A string. -/
  | string (bytes : Bytes)
  /-- A string of bytes. -/
  | bytes (bytes : Bytes)
  /-- A name. -/
  | name (n : Bytes)
  /-- A reserved word. -/
  | keyword (k : Keyword)
  /-- An operator, bracket or other mark. -/
  | mark (m : Mark)
  deriving DecidableEq, Repr

/-! ### Names -/

/-- May a name start with `c`? -/
def isNameStart (c : Char) : Bool := c == '_' || Text.isLetter c

/-- May `c` be part of a name? -/
def isNameChar (c : Char) : Bool := c.isDigit || isNameStart c

/-- The reserved words. -/
def keywords : List (List Char × Keyword) :=
  [("and".toList, .andWord), ("or".toList, .orWord), ("not".toList, .notWord),
   ("in".toList, .inWord), ("if".toList, .ifWord), ("else".toList, .elseWord)] ++
  (["break", "continue", "def", "elif", "for", "lambda", "load", "pass", "return", "while", "as",
    "async", "await", "class", "del", "except", "finally", "from", "global", "import", "is",
    "nonlocal", "raise", "try", "with", "yield"].map fun w => (w.toList, Keyword.other))

/-- The lexeme of a word: a reserved word or a name. -/
def ofWord (word : List Char) : Lexeme :=
  match keywords.find? (·.1 == word) with
  | some (_, k) => .keyword k
  | none => .name (Bytes.ofChars word)

/-! ### Numbers -/

/-- An integer with a base mark: at least one digit of the base, and below the given limit. -/
def based? (base limit : Nat) (rest : List Char) : Option (Lexeme × Nat) :=
  let run := Text.digitRun base rest
  match Text.numeral? base (rest.take run) with
  | some n => if n < limit then some (.int n, run + 2) else none
  | none => none

/-- The number at the front of a text that starts with a digit or a point, and its length.  Binary
and octal numbers have to be below 2⁶³; a decimal integer does not start with a zero unless all its
digits are zeros. -/
def number? (cs : List Char) : Option (Lexeme × Nat) :=
  match cs with
  | '0' :: x :: rest =>
    if x = 'x' ∨ x = 'X' then
      (Text.numeral? 16 (rest.take (Text.digitRun 16 rest))).map fun n =>
        (.int n, Text.digitRun 16 rest + 2)
    else if x = 'o' ∨ x = 'O' then based? 8 0x8000000000000000 rest
    else if x = 'b' ∨ x = 'B' then based? 2 0x8000000000000000 rest
    else plain cs
  | _ => plain cs
where
  /-- A number without a base mark. -/
  plain (cs : List Char) : Option (Lexeme × Nat) :=
    let whole := cs.take (Text.digitRun 10 cs)
    let rest := cs.drop whole.length
    let exponent := rest.head? = some 'e' ∨ rest.head? = some 'E'
    if rest.head? = some '.' ∨ (!whole.isEmpty ∧ exponent) then
      (Text.Decimal.read? whole rest).map fun (d, n) => (.decimal d, n)
    else if whole.head? = some '0' ∧ !whole.all (· == '0') then none
    else (Text.numeral? 10 whole).map fun n => (.int n, whole.length)

/-! ### Strings -/

/-- The byte that a one-letter escape stands for. -/
def escaped? (c : Char) : Option UInt8 :=
  match c with
  | 'a' => some 0x07
  | 'b' => some 0x08
  | 'f' => some 0x0C
  | 'n' => some 0x0A
  | 'r' => some 0x0D
  | 't' => some 0x09
  | 'v' => some 0x0B
  | '\\' => some 0x5C
  | '\'' => some 0x27
  | '"' => some 0x22
  | _ => none

/-- The bytes of an escape whose backslash stands before `c :: rest`, and how many characters of
`rest` belong to it.  In a string an escape by value stays below 0x80. -/
def escape? (isBytes : Bool) (c : Char) (rest : List Char) : Option (Bytes × Nat) :=
  if c = '\n' then some ([], 0)
  else if let some b := escaped? c then some ([b], 0)
  else if (Text.digitOf? 8 c).isSome then
    let run := Text.digitRun 8 (rest.take 2)
    match Text.numeral? 8 (c :: rest.take run) with
    | some n => if n < (if isBytes then 256 else 128) then some ([UInt8.ofNat n], run) else none
    | none => none
  else if c = 'x' then
    match Text.numeral? 16 (rest.take 2) with
    | some n =>
      if 2 ≤ rest.length ∧ n < (if isBytes then 256 else 128) then some ([UInt8.ofNat n], 2)
      else none
    | none => none
  else if c = 'u' ∨ c = 'U' then
    let width := if c = 'u' then 4 else 8
    match Text.numeral? 16 (rest.take width) with
    | some n =>
      if width ≤ rest.length then
        (Text.Utf8.scalar? 0 n).map fun c => (String.utf8EncodeChar c, width)
      else none
    | none => none
  else none

/-- The bytes of the text between quotes, with its escapes replaced; the first argument counts the
characters that belong to an escape already replaced, and `seen` holds the bytes so far, the latest
first. -/
def unescape? (isBytes : Bool) : Nat → Bytes → List Char → Option Bytes
  | _, seen, [] => some seen.reverse
  | skip + 1, seen, _ :: rest => unescape? isBytes skip seen rest
  | 0, seen, c :: rest =>
    if c = '\\' then
      match rest with
      | [] => none
      | d :: rest' =>
        match escape? isBytes d rest' with
        | some (bytes, more) => unescape? isBytes (more + 1) (bytes.reverse ++ seen) rest
        | none => none
    else unescape? isBytes 0 ((String.utf8EncodeChar c).reverse ++ seen) rest

/-- The length of the text up to the closing quotes, of which there are `quotes` in a row; `run`
counts those already passed.  A backslash protects the next character.  A string with one quote ends
on its line. -/
def closing? (quote : Char) (quotes : Nat) :
    (skip : Bool) → (run length : Nat) → List Char → Option Nat
  | _, _, _, [] => none
  | true, _, length, _ :: rest => closing? quote quotes false 0 (length + 1) rest
  | false, run, length, c :: rest =>
    if c = quote then
      if run + 1 = quotes then some (length + 1 - quotes)
      else closing? quote quotes false (run + 1) (length + 1) rest
    else if c = '\n' ∧ quotes = 1 then none
    else closing? quote quotes (c == '\\') 0 (length + 1) rest

/-- The string that starts at the quote in front of `rest`, and how many characters of `rest` belong
to it. -/
def string? (isRaw isBytes : Bool) (quote : Char) (rest : List Char) : Option (Lexeme × Nat) :=
  let quotes := if rest.take 2 = [quote, quote] then 3 else 1
  let body := rest.drop (quotes - 1)
  match closing? quote quotes false 0 0 body with
  | none => none
  | some length =>
    let text := body.take length
    let bytes := if isRaw then some (Bytes.ofChars text) else unescape? isBytes 0 [] text
    bytes.map fun bs => (if isBytes then .bytes bs else .string bs, length + 2 * quotes - 1)

/-! ### Marks -/

/-- The mark that starts with `c`, and how many characters of `rest` belong to it. -/
def mark? (c : Char) (rest : List Char) : Option (Mark × Nat) :=
  match c, rest with
  | ',', _ => some (.comma, 0)
  | '(', _ => some (.openParen, 0)
  | ')', _ => some (.closeParen, 0)
  | '[', _ => some (.openBracket, 0)
  | ']', _ => some (.closeBracket, 0)
  | '~', _ => some (.tilde, 0)
  | '=', '=' :: _ => some (.equal, 1)
  | '=', _ => some (.assign, 0)
  | '!', '=' :: _ => some (.notEqual, 1)
  | '<', '=' :: _ => some (.lessEqual, 1)
  | '<', '<' :: '=' :: _ => some (.other, 2)
  | '<', '<' :: _ => some (.shiftLeft, 1)
  | '<', _ => some (.less, 0)
  | '>', '=' :: _ => some (.greaterEqual, 1)
  | '>', '>' :: '=' :: _ => some (.other, 2)
  | '>', '>' :: _ => some (.shiftRight, 1)
  | '>', _ => some (.greater, 0)
  | '/', '=' :: _ => some (.other, 1)
  | '/', '/' :: '=' :: _ => some (.other, 2)
  | '/', '/' :: _ => some (.slashSlash, 1)
  | '/', _ => some (.slash, 0)
  | '*', '*' :: _ => some (.other, 1)
  | '*', '=' :: _ => some (.other, 1)
  | '*', _ => some (.star, 0)
  | '+', '=' :: _ => some (.other, 1)
  | '+', _ => some (.plus, 0)
  | '-', '=' :: _ => some (.other, 1)
  | '-', _ => some (.minus, 0)
  | '%', '=' :: _ => some (.other, 1)
  | '%', _ => some (.percent, 0)
  | '&', '=' :: _ => some (.other, 1)
  | '&', _ => some (.ampersand, 0)
  | '|', '=' :: _ => some (.other, 1)
  | '|', _ => some (.bar, 0)
  | '^', '=' :: _ => some (.other, 1)
  | '^', _ => some (.caret, 0)
  | _, _ => if c.toNat ∈ [0x3A, 0x3B, 0x7B, 0x7D, 0x2E] then some (.other, 0) else none

/-! ### The lexemes of a text -/

/-- The lexeme that starts at `c`, with `rest` behind it, and how many characters of `rest` belong
to it. -/
def lexeme? (c : Char) (rest : List Char) : Option (Lexeme × Nat) :=
  if c = '"' ∨ c = '\'' then string? false false c rest
  else if isNameStart c then
    match c, rest with
    | 'r', 'b' :: '"' :: tail => (string? true true '"' tail).map fun (l, n) => (l, n + 2)
    | 'r', 'b' :: '\'' :: tail => (string? true true '\'' tail).map fun (l, n) => (l, n + 2)
    | 'r', '"' :: tail => (string? true false '"' tail).map fun (l, n) => (l, n + 1)
    | 'r', '\'' :: tail => (string? true false '\'' tail).map fun (l, n) => (l, n + 1)
    | 'b', '"' :: tail => (string? false true '"' tail).map fun (l, n) => (l, n + 1)
    | 'b', '\'' :: tail => (string? false true '\'' tail).map fun (l, n) => (l, n + 1)
    | _, _ =>
      let more := rest.takeWhile isNameChar
      some (ofWord (c :: more), more.length)
  else if c.isDigit || (c == '.' && rest.head?.any Char.isDigit) then
    (number? (c :: rest)).map fun (l, n) => (l, n - 1)
  else (mark? c rest).map fun (m, n) => (.mark m, n)

/-- The bracket depth behind a lexeme; none if it closes a bracket that was never opened.  Braces
count as brackets, but they have no lexeme of their own. -/
def depthAfter? (depth : Nat) (c : Char) : Option Nat :=
  if c = '(' ∨ c = '[' ∨ c.toNat = 0x7B then some (depth + 1)
  else if c = ')' ∨ c = ']' ∨ c.toNat = 0x7D then if depth = 0 then none else some (depth - 1)
  else some depth

/-- Does a line hold nothing but blanks and a comment? -/
def isEmptyLine (cs : List Char) : Bool :=
  match (cs.dropWhile (fun c => c == ' ' || c == '\t')).head? with
  | none => true
  | some c => c == '#' || c == '\n' || c.toNat == 0

/-- Puts the lexemes of a text behind those in `seen`, which holds the latest first.  `fresh` tells
whether nothing but blanks was passed on the line.  The character U+0000 ends the text. -/
def scanOnto (seen : List Lexeme) (depth : Nat) (fresh : Bool) :
    Nat → List Char → Option (List Lexeme)
  | _, [] => some seen.reverse
  | skip + 1, _ :: rest => scanOnto seen depth fresh skip rest
  | 0, c :: rest =>
    if c.toNat = 0 then some seen.reverse
    else if c = ' ' ∨ c = '\t' then
      if fresh && depth == 0 && !isEmptyLine rest then none
      else scanOnto seen depth fresh 0 rest
    else if c = '#' then
      scanOnto seen depth fresh (rest.takeWhile (fun d => d != '\n' && d.toNat != 0)).length rest
    else if c = '\n' then
      if depth = 0 && !fresh then scanOnto (.newline :: seen) depth true 0 rest
      else scanOnto seen depth true 0 rest
    else if c = '\\' then
      if rest.head? = some '\n' then scanOnto seen depth false 1 rest else none
    else
      match lexeme? c rest, depthAfter? depth c with
      | some (l, more), some depth => scanOnto (l :: seen) depth false more rest
      | _, _ => none

/-- A text with each of its line ends as one newline. -/
def normalizeLineEnds : List Char → List Char
  | [] => []
  | '\r' :: '\n' :: rest => '\n' :: normalizeLineEnds rest
  | '\r' :: rest => '\n' :: normalizeLineEnds rest
  | c :: rest => c :: normalizeLineEnds rest

/-- The lexemes of a formula; none if some character starts no lexeme. -/
def scan? (text : Bytes) : Option (List Lexeme) :=
  scanOnto [] 0 true 0 (normalizeLineEnds (Text.Utf8.decode text))

end BootSector.Formula
