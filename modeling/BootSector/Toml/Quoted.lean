import BootSector.Toml.Scalar

/-!
# Strings of a TOML document

A basic string stands between double quotes and has escapes; a literal string stands between single
quotes and has none.  Both also come between triple quotes, and then may run over several lines.
-/

namespace BootSector.Toml

/-- Does the character belong to a line end? -/
def isLineEnd (c : Char) : Bool := c == '\n' || c == '\r'

/-- Is the character a blank or a tab? -/
def isSpace (c : Char) : Bool := c == ' ' || c == '\t'

/-- The character of a hexadecimal code point. -/
def codePoint? (digits : List Char) : Option Char := do
  let n ← Text.numeral? 16 digits
  if h : n.isValidChar then some (Char.ofNatAux n h) else none

/-- The character of the escape behind a backslash, and the length of the escape. -/
def escape? : List Char → Option (Char × Nat)
  | 'b' :: _ => some ('\x08', 1)
  | 't' :: _ => some ('\t', 1)
  | 'n' :: _ => some ('\n', 1)
  | 'f' :: _ => some ('\x0c', 1)
  | 'r' :: _ => some ('\r', 1)
  | '"' :: _ => some ('"', 1)
  | '\\' :: _ => some ('\\', 1)
  | 'u' :: rest => if 4 ≤ rest.length then (codePoint? (rest.take 4)).map (·, 5) else none
  | 'U' :: rest => if 8 ≤ rest.length then (codePoint? (rest.take 8)).map (·, 9) else none
  | _ => none

/-! ### Strings on one line -/

/-- The basic string in front of its closing quote, and the text behind that.  `skip` characters
belong to the escape before, and `done` holds the string so far, the latest character first. -/
def basicFrom? (skip : Nat) (done : List Char) : List Char → Option (List Char × List Char)
  | [] => none
  | c :: rest =>
    match skip with
    | skip + 1 => basicFrom? skip done rest
    | 0 =>
      if c = '"' then some (done.reverse, rest)
      else if isLineEnd c then none
      else if c = '\\' then
        match escape? rest with
        | some (d, length) => basicFrom? length (d :: done) rest
        | none => none
      else basicFrom? 0 (c :: done) rest

/-- The literal string in front of its closing quote, and the text behind that. -/
def literalFrom? (done : List Char) : List Char → Option (List Char × List Char)
  | [] => none
  | c :: rest =>
    if c = '\'' then some (done.reverse, rest)
    else if isLineEnd c then none
    else literalFrom? (c :: done) rest

/-! ### Strings over several lines -/

/-- What a quote in a string over several lines is. -/
inductive QuoteRole where
  /-- A character of the string. -/
  | inside
  /-- The first of the three that close the string. -/
  | closing
  /-- One of too many. -/
  | surplus
  deriving DecidableEq, Repr

/-- The role of a quote in front of the given text, among at most `limit` quotes in a row, of which
the last three close the string. -/
def quoteRole (limit : Nat) (quote : Char) (rest : List Char) : QuoteRole :=
  let count := (rest.takeWhile (· == quote)).length + 1
  if count < 3 then .inside
  else if count = 3 then .closing
  else if count ≤ limit then .inside
  else .surplus

/-- How many quotes may end a string: two of its own, and three that close it. -/
def quoteLimit : Nat := 5

/-- The length of the line end and the blanks around it at the front of a text; none if there is no
line end among them. -/
def lineBreak? (cs : List Char) : Option Nat :=
  let blanks := cs.takeWhile fun c => isSpace c || isLineEnd c
  if blanks.any isLineEnd then some blanks.length else none

/-- The basic string in front of its three closing quotes, and the text behind them.  A backslash at
the end of a line joins it to the next character that is no blank.  `limit` quotes may follow in a
row: one more than usual behind two backslashes. -/
def longBasicFrom? (limit skip : Nat) (done : List Char) :
    List Char → Option (List Char × List Char)
  | [] => none
  | c :: rest =>
    match skip with
    | skip + 1 => longBasicFrom? limit skip done rest
    | 0 =>
      if c = '"' then
        match quoteRole limit '"' rest with
        | .inside => longBasicFrom? quoteLimit 0 (c :: done) rest
        | .closing => some (done.reverse, rest.drop 2)
        | .surplus => none
      else if c = '\\' then
        match lineBreak? rest with
        | some length => longBasicFrom? quoteLimit length done rest
        | none =>
          match escape? rest with
          | some (d, length) =>
            let limit := if rest.head? = some '\\' then quoteLimit + 1 else quoteLimit
            longBasicFrom? limit length (d :: done) rest
          | none => none
      else longBasicFrom? quoteLimit 0 (c :: done) rest

/-- The literal string in front of its three closing quotes, and the text behind them. -/
def longLiteralFrom? (done : List Char) : List Char → Option (List Char × List Char)
  | [] => none
  | c :: rest =>
    if c = '\'' then
      match quoteRole quoteLimit '\'' rest with
      | .inside => longLiteralFrom? (c :: done) rest
      | .closing => some (done.reverse, rest.drop 2)
      | .surplus => none
    else longLiteralFrom? (c :: done) rest

/-- A text without the line end at its front. -/
def dropLineEnd : List Char → List Char
  | '\n' :: rest | '\r' :: '\n' :: rest => rest
  | cs => cs

/-! ### Any string -/

/-- The string on one line at the front of a text that starts with a quote, and the rest of the
text. -/
def shortString? : List Char → Option (Bytes × List Char)
  | '"' :: rest => (basicFrom? 0 [] rest).map fun (cs, rest) => (Bytes.ofChars cs, rest)
  | '\'' :: rest => (literalFrom? [] rest).map fun (cs, rest) => (Bytes.ofChars cs, rest)
  | _ => none

/-- The string at the front of a text that starts with a quote, and the rest of the text. -/
def string? : List Char → Option (Bytes × List Char)
  | '"' :: '"' :: '"' :: rest =>
    (longBasicFrom? quoteLimit 0 [] (dropLineEnd rest)).map
      fun (cs, rest) => (Bytes.ofChars cs, rest)
  | '\'' :: '\'' :: '\'' :: rest =>
    (longLiteralFrom? [] (dropLineEnd rest)).map fun (cs, rest) => (Bytes.ofChars cs, rest)
  | cs => shortString? cs

end BootSector.Toml
