import BootSector.Text.Decimal

/-!
# Scalars of a TOML document

Numbers, dates and times, from the characters at the front of a text.  Which characters belong to
the value is decided first, and then whether they make a proper one.  Dates, times and numbers with
a fraction are checked in full, but no setting holds one, so nothing is kept of them.
-/

namespace BootSector.Toml

/-- **A value without parts.** -/
inductive Scalar where
  /-- A string. -/
  | string (bytes : Bytes)
  /-- An integer of 64 bits. -/
  | integer (n : Int)
  /-- A number with a fraction or an exponent, an infinity, or no number. -/
  | real
  /-- A truth value. -/
  | boolean (b : Bool)
  /-- A date, a time or both. -/
  | moment
  deriving DecidableEq, Repr

/-! ### Numbers -/

/-- Is every underscore behind a digit, and is the last character a digit?  `digit` tells whether
the character in front of the text is one. -/
def grouped (digit : Bool) : List Char → Bool
  | [] => digit
  | c :: rest => (c != '_' || digit) && grouped (Text.digitOf? 16 c).isSome rest

/-- A text without its underscores. -/
def ungroup (cs : List Char) : List Char := cs.filter (· != '_')

/-- Does a numeral of more than one character start with a zero? -/
def hasLeadingZero : List Char → Bool
  | '0' :: _ :: _ => true
  | _ => false

/-- The integer of the given digits, if it has 64 bits. -/
def integer? (negative : Bool) (base : Nat) (digits : List Char) : Option Scalar :=
  if grouped false digits then do
    let n ← Text.numeral? base (ungroup digits)
    if n < 0x8000000000000000 ∨ (negative ∧ n = 0x8000000000000000) then
      some (.integer (if negative then -(n : Int) else n))
    else none
  else none

/-- The decimal integer of the given digits; a zero in front is refused. -/
def decimalInteger? (negative : Bool) (digits : List Char) : Option Scalar :=
  if hasLeadingZero digits then none else integer? negative 10 digits

/-- Is every point in front of a digit? -/
def pointsHold : List Char → Bool
  | [] => true
  | '.' :: rest => (rest.head?.any Char.isDigit) && pointsHold rest
  | _ :: rest => pointsHold rest

/-- The parts of a numeral between its points and exponent marks, without the empty ones. -/
def numeralParts (cs : List Char) : List (List Char) :=
  (go [] cs).filter (!·.isEmpty)
where
  /-- The parts of a text behind the characters of a part, the latest first. -/
  go (part : List Char) : List Char → List (List Char)
    | [] => [part.reverse]
    | c :: rest =>
      if c = '.' ∨ c = 'e' ∨ c = 'E' then part.reverse :: go [] rest else go (c :: part) rest

/-- Is the text a number with a fraction or an exponent, in the range of binary64? -/
def isReal (cs : List Char) : Bool :=
  let parts := numeralParts cs
  let digits := ungroup cs
  let whole := digits.takeWhile Char.isDigit
  parts.all (grouped false) && !(parts.head?.any hasLeadingZero) && pointsHold cs &&
    match Text.Decimal.read? whole (digits.drop whole.length) with
    | some (d, length) => length == digits.length && d.toFloat?.isSome
    | none => false

/-- May the character stand in a number with a fraction or an exponent? -/
def isRealChar (c : Char) : Bool :=
  c.isDigit || c == '_' || c == '.' || c == '-' || c == '+' || c == 'e' || c == 'E'

/-- Does the character start a fraction or an exponent? -/
def isRealMark (c : Char) : Bool := c == '.' || c == 'e' || c == 'E'

/-- The decimal number at the front of a text, and the rest of the text. -/
def decimalNumber? (negative : Bool) (cs : List Char) : Option (Scalar × List Char) :=
  let isDigitChar := fun (c : Char) => c.isDigit || c == '_'
  let digits := cs.takeWhile isDigitChar
  let rest := cs.dropWhile isDigitChar
  if rest.head?.any isRealMark then
    let number := cs.takeWhile isRealChar
    if isReal number then some (.real, cs.drop number.length) else none
  else (decimalInteger? negative digits).map (·, rest)

/-- The integer behind a base mark, and the rest of the text. -/
def basedNumber? (base : Nat) (cs : List Char) : Option (Scalar × List Char) :=
  let isDigitChar := fun (c : Char) => (Text.digitOf? base c).isSome || c == '_'
  (integer? false base (cs.takeWhile isDigitChar)).map (·, cs.dropWhile isDigitChar)

/-! ### Dates and times -/

/-- The number of exactly so many digits at the front of a text, and the rest of the text. -/
def fixedNumber? (width : Nat) (cs : List Char) : Option (Nat × List Char) :=
  if (cs.take width).length = width then
    (Text.numeral? 10 (cs.take width)).map (·, cs.drop width)
  else none

/-- The text behind the given character. -/
def behind? (c : Char) : List Char → Option (List Char)
  | d :: rest => if c = d then some rest else none
  | [] => none

/-- The number of days of a month. -/
def daysIn (year month : Nat) : Nat :=
  if month = 2 then
    if year % 4 = 0 ∧ (year % 100 ≠ 0 ∨ year % 400 = 0) then 29 else 28
  else if month = 4 ∨ month = 6 ∨ month = 9 ∨ month = 11 then 30
  else 31

/-- The text behind a date. -/
def behindDate? (cs : List Char) : Option (List Char) := do
  let (year, cs) ← fixedNumber? 4 cs
  let (month, cs) ← fixedNumber? 2 (← behind? '-' cs)
  let (day, cs) ← fixedNumber? 2 (← behind? '-' cs)
  if 1 ≤ month ∧ month ≤ 12 ∧ 1 ≤ day ∧ day ≤ daysIn year month then some cs else none

/-- The text behind a fraction of a second, if there is one. -/
def behindFraction : List Char → List Char
  | '.' :: c :: rest => if c.isDigit then rest.dropWhile Char.isDigit else '.' :: c :: rest
  | cs => cs

/-- The text behind a time of day. -/
def behindTime? (cs : List Char) : Option (List Char) := do
  let (hour, cs) ← fixedNumber? 2 cs
  let (minute, cs) ← fixedNumber? 2 (← behind? ':' cs)
  let (second, cs) ← fixedNumber? 2 (← behind? ':' cs)
  if hour < 24 ∧ minute < 60 ∧ second < 60 then some (behindFraction cs) else none

/-- Is the text the distance to universal time? -/
def isZone : List Char → Bool
  | ['Z'] => true
  | sign :: cs =>
    (sign == '+' || sign == '-') &&
      ((do
        let (hour, cs) ← fixedNumber? 2 cs
        let (minute, cs) ← fixedNumber? 2 (← behind? ':' cs)
        pure (decide (hour ≤ 24) && decide (minute ≤ 60) && cs.isEmpty)) == some true)
  | [] => false

/-- Is the text a date, a time or both? -/
def isMoment (cs : List Char) : Bool :=
  match behindDate? cs with
  | some [] => true
  | some ('T' :: rest) =>
    match behindTime? rest with
    | some [] => true
    | some zone => isZone zone
    | none => false
  | some _ => false
  | none => behindTime? cs == some []

/-- May the character stand in a date or time? -/
def isMomentChar (c : Char) : Bool :=
  c.isDigit || c == '-' || c == ':' || c == 'T' || c == 't' || c == ' ' || c == '.' || c == 'Z' ||
    c == 'z' || c == '+'

/-- The mark of a date or time in its proper case; a blank may stand for the mark of the time. -/
def momentMark (c : Char) : Char :=
  if c = 't' ∨ c = ' ' then 'T' else if c = 'z' then 'Z' else c

/-- The date or time at the front of a text, and the rest of the text. -/
def moment? (cs : List Char) : Option (Scalar × List Char) :=
  let chars := cs.takeWhile isMomentChar
  let trimmed := (chars.reverse.dropWhile (· == ' ')).reverse
  if isMoment (trimmed.map momentMark) then some (.moment, cs.drop chars.length) else none

/-! ### Any number, date or time -/

/-- The number, date or time at the front of a text that starts with a digit, and the rest of it. -/
def unsigned? : List Char → Option (Scalar × List Char)
  | '0' :: 'x' :: rest => basedNumber? 16 rest
  | '0' :: 'o' :: rest => basedNumber? 8 rest
  | '0' :: 'b' :: rest => basedNumber? 2 rest
  | cs =>
    match cs.dropWhile Char.isDigit with
    | '-' :: _ | ':' :: _ => moment? cs
    | _ => decimalNumber? false cs

/-- The number behind a sign, and the rest of the text. -/
def signed? (negative : Bool) : List Char → Option (Scalar × List Char)
  | 'i' :: 'n' :: 'f' :: rest | 'n' :: 'a' :: 'n' :: rest => some (.real, rest)
  | c :: rest => if c.isDigit then decimalNumber? negative (c :: rest) else none
  | [] => none

end BootSector.Toml
