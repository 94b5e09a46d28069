import BootSector.Text.Letter
import BootSector.Text.Utf8
import BootSector.Toml.Quoted

/-!
# Items of a TOML document

A document is a list of items: table headers, and keys with their values.  Here it is only taken
apart; whether the keys fit together is not looked at.
-/

namespace BootSector.Toml

/-- A dotted key. -/
abbrev Path := List Bytes

/-- **A value as it is written.** -/
inductive Term where
  /-- A value without parts. -/
  | scalar (s : Scalar)
  /-- An array. -/
  | array (items : List Term)
  /-- A table on one line. -/
  | table (pairs : List (Path × Term))

/-- **An item of a document.** -/
inductive Item where
  /-- The header of a table. -/
  | header (key : Path)
  /-- The header of an element of an array of tables. -/
  | element (key : Path)
  /-- A key with its value. -/
  | pair (key : Path) (value : Term)

/-! ### Blanks and comments -/

/-- A text without the blanks at its front. -/
def dropSpace (cs : List Char) : List Char := cs.dropWhile isSpace

/-- A text without the blanks, line ends and comments at its front. -/
def dropTrivia (inComment : Bool) : List Char → List Char
  | [] => []
  | c :: rest =>
    if inComment then dropTrivia (!isLineEnd c) rest
    else if c = '#' then dropTrivia true rest
    else if isSpace c || isLineEnd c then dropTrivia false rest
    else c :: rest

/-- The text behind an item, which has to end its line. -/
def behindItem? (cs : List Char) : Option (List Char) :=
  let rest := dropSpace cs
  if rest.head?.all (fun c => c == '#' || isLineEnd c) then some rest else none

/-! ### Keys -/

/-- May the character stand in a key without quotes? -/
def isBareChar (c : Char) : Bool := c.isAlphanum || c == '_' || c == '-'

/-- One part of a key, and the rest of the text. -/
def keyPart? (cs : List Char) : Option (Bytes × List Char) :=
  if cs.head? = some '"' ∨ cs.head? = some '\'' then shortString? cs
  else
    let word := cs.takeWhile isBareChar
    if word.isEmpty then none else some (Bytes.ofChars word, cs.dropWhile isBareChar)

/-- The key at the front of a text, and the text behind it and the blanks after it. -/
def key? : Nat → List Char → Option (Path × List Char)
  | 0, _ => none
  | fuel + 1, cs => do
    let (part, rest) ← keyPart? (dropSpace cs)
    match dropSpace rest with
    | '.' :: rest =>
      let (parts, rest) ← key? fuel rest
      pure (part :: parts, rest)
    | rest => pure ([part], rest)

/-! ### Values -/

/-- The truth value at the front of a text, and the rest of the text. -/
def boolean? (cs : List Char) : Option (Scalar × List Char) :=
  let word := cs.takeWhile Text.isLetter
  if word = "true".toList then some (.boolean true, cs.drop 4)
  else if word = "false".toList then some (.boolean false, cs.drop 5)
  else none

/-- The value without parts at the front of a text, and the rest of the text. -/
def scalar? (cs : List Char) : Option (Scalar × List Char) :=
  match cs with
  | '"' :: _ | '\'' :: _ => (string? cs).map fun (bytes, rest) => (.string bytes, rest)
  | '+' :: rest => signed? false rest
  | '-' :: rest => signed? true rest
  | 'i' :: 'n' :: 'f' :: rest | 'n' :: 'a' :: 'n' :: rest => some (.real, rest)
  | c :: _ => if c.isDigit then unsigned? cs else boolean? cs
  | [] => none

mutual

/-- The value at the front of a text, and the rest of the text. -/
def term? : Nat → List Char → Option (Term × List Char)
  | 0, _ => none
  | fuel + 1, cs =>
    match dropSpace cs with
    | '[' :: rest => (arrayItems? fuel rest).map fun (items, rest) => (.array items, rest)
    | '\x7b' :: rest =>
      match dropSpace rest with
      | '\x7d' :: rest => some (.table [], rest)
      | rest => (tablePairs? fuel rest).map fun (pairs, rest) => (.table pairs, rest)
    | cs => (scalar? cs).map fun (s, rest) => (.scalar s, rest)

/-- The remaining items of an array, and the text behind its bracket. -/
def arrayItems? : Nat → List Char → Option (List Term × List Char)
  | 0, _ => none
  | fuel + 1, cs =>
    match dropTrivia false cs with
    | ']' :: rest => some ([], rest)
    | cs => do
      let (item, rest) ← term? fuel cs
      match dropTrivia false rest with
      | ',' :: rest =>
        let (items, rest) ← arrayItems? fuel rest
        pure (item :: items, rest)
      | ']' :: rest => pure ([item], rest)
      | _ => none

/-- The remaining pairs of a table on one line, of which there is at least one, and the text behind
its brace. -/
def tablePairs? : Nat → List Char → Option (List (Path × Term) × List Char)
  | 0, _ => none
  | fuel + 1, cs => do
    let (key, rest) ← key? fuel cs
    let (value, rest) ← term? fuel (← behind? '=' rest)
    match dropSpace rest with
    | ',' :: rest =>
      let (pairs, rest) ← tablePairs? fuel rest
      pure ((key, value) :: pairs, rest)
    | '\x7d' :: rest => pure ([(key, value)], rest)
    | _ => none

end

/-! ### Items -/

/-- The item at the front of a text, and the rest of the text. -/
def item? (fuel : Nat) : List Char → Option (Item × List Char)
  | '[' :: '[' :: rest => do
    let (key, rest) ← key? fuel rest
    pure (.element key, ← behind? ']' (← behind? ']' rest))
  | '[' :: rest => do
    let (key, rest) ← key? fuel rest
    pure (.header key, ← behind? ']' rest)
  | cs => do
    let (key, rest) ← key? fuel cs
    let (value, rest) ← term? fuel (← behind? '=' rest)
    pure (.pair key value, rest)

/-- The items of a text. -/
def items? : Nat → List Char → Option (List Item)
  | 0, _ => none
  | fuel + 1, cs =>
    match dropTrivia false cs with
    | [] => some []
    | cs => do
      let (item, rest) ← item? fuel cs
      let items ← items? fuel (← behindItem? rest)
      pure (item :: items)

/-! ### Texts -/

/-- Are there no control characters but tabs and line ends, and is every carriage return part of a
line end? -/
def isPlain : List Char → Bool
  | [] => true
  | c :: rest =>
    (if c = '\r' then rest.head? == some '\n'
     else isSpace c || isLineEnd c || (0x20 ≤ c.toNat && c.toNat != 0x7F)) && isPlain rest

/-- A text without the byte order mark at its front. -/
def dropByteOrderMark : Bytes → Bytes
  | 0xFF :: 0xFE :: rest | 0xFE :: 0xFF :: rest | 0xEF :: 0xBB :: 0xBF :: rest => rest
  | text => text

/-- **The items of a document.** -/
def Item.read? (text : Bytes) : Option (List Item) :=
  let text := dropByteOrderMark text
  let cs := Text.Utf8.decode text
  if Text.Utf8.isValid text && isPlain cs then items? (cs.length + 1) cs else none

end BootSector.Toml
