import BootSector.Text.Layout

/-!
# Message templates

Messages are written as templates with holes.  A hole is a per cent sign, wishes for the layout (see
`Layout`) and a letter, its *verb*: `%d` takes a number, `%v` a number or a text, `%s` a text, and
there are others for other bases and for quoted text.  `%%` stands for a per cent sign.

Holes take the arguments from left to right, unless a hole names one by its position, as `%[2]v`
does.  A width or a precision may come from an argument too, for which an asterisk stands.  Nothing
is ever refused: a hole that cannot be filled as it asks shows so in the message.
-/

namespace BootSector.Text

/-- What can be filled into a hole of a template. -/
inductive Argument where
  /-- A number. -/
  | number (n : Int)
  /-- A text. -/
  | text (bs : Bytes)
  deriving DecidableEq, Repr

namespace Argument

/-- The name of the type of an argument. -/
def typeName : Argument → Bytes
  | number _ => Bytes.ofString "int"
  | text _ => Bytes.ofString "string"

/-- The argument as the verb `v` writes it, where `kept` is the padding of the number before. -/
def plain (l : Layout) (kept : Option Layout.Padding) : Argument → Bytes
  | number n => if l.alternate || l.verbatim then l.inBase 10 n else l.paddedGrouped kept n
  | text bs => if l.verbatim then l.quotedText bs else l.text bs

/-- The padding that is kept for the next number, once the verb `v` has written the argument. -/
def keptBy (l : Layout) (kept : Option Layout.Padding) : Argument → Option Layout.Padding
  | number _ => if l.alternate || l.verbatim then kept else l.padding kept
  | text _ => kept

/-- The number as the given verb writes it; none if the verb is not one for numbers, or if it is
one that `plain` writes. -/
def writtenNumber? (l : Layout) (verb : Char) (n : Int) : Option Bytes :=
  match verb with
  | 'b' => some (l.inBase 2 n)
  | 'o' => some (l.inBase 8 n)
  | 'x' => some (l.inBase 16 n)
  | 'X' => some (Layout.upperCase (l.inBase 16 n))
  | 'c' => some (l.character n)
  | 'q' => if 0 ≤ n ∧ n ≤ 0x10FFFF then some (l.quotedCharacter n) else none
  | 'U' => some (l.codePoint n)
  | _ => none

/-- The text as the given verb writes it; none if the verb is not one for texts, or if it is one
that `plain` writes. -/
def writtenText? (l : Layout) (verb : Char) (bs : Bytes) : Option Bytes :=
  match verb with
  | 's' => some (l.text bs)
  | 'x' => some (l.hexText bs)
  | 'X' => some (Layout.upperCase (l.hexText bs))
  | 'q' => some (l.quotedText bs)
  | 'm' => some bs
  | _ => none

/-- The argument as the given verb writes it; none as for numbers and texts. -/
def written? (l : Layout) (verb : Char) (a : Argument) : Option Bytes :=
  if verb = 'T' then some (l.text a.typeName)
  else match a with
    | number n => writtenNumber? l verb n
    | text bs => writtenText? l verb bs

/-- Does the verb write the argument as `plain` does? -/
def isPlainVerb (verb : Char) : Argument → Bool
  | number _ => verb == 'v' || verb == 'd'
  | text _ => verb == 'v'

end Argument

namespace Template

/-! ### Reading a hole -/

/-- How far a template has been filled. -/
structure Progress where
  /-- The position of the argument that the next hole takes. -/
  next : Nat := 0
  /-- Did a hole name its argument by the position? -/
  reordered : Bool := false
  /-- The padding of the number written last. -/
  kept : Option Layout.Padding := none
  deriving DecidableEq, Repr

/-- A hole that is being read. -/
structure Reader where
  /-- The text that is not read yet. -/
  rest : List Char
  /-- The wishes read so far. -/
  layout : Layout := {}
  /-- How far the template has been filled. -/
  progress : Progress
  /-- Has every position that was named an argument, and does it stand in its place? -/
  sound : Bool := true
  /-- What is shown for a width or a precision that could not be taken from an argument. -/
  complaint : Bytes := []

/-- Reads the flags at the front of a hole. -/
def readFlags (l : Layout) : List Char → Layout × List Char
  | [] => (l, [])
  | c :: rest =>
    match c with
    | '#' => readFlags { l with alternate := true } rest
    | '0' => readFlags { l with zeros := !l.leftAligned } rest
    | '+' => readFlags { l with signed := true } rest
    | '-' => readFlags { l with leftAligned := true, zeros := false } rest
    | ' ' => readFlags { l with spaced := true } rest
    | _ => (l, c :: rest)

/-- The greatest width, precision or position that can be asked for. -/
def sizeLimit : Nat := 1000000

/-- Reads digits behind digits of value `n`; `some n` is what they spell if there is none.  Digits
that go on past the limit swallow the rest of the text. -/
def readDigits (n : Nat) (spelled : Option Nat) : List Char → Option Nat × List Char
  | [] => (spelled, [])
  | c :: rest =>
    if c.isDigit then
      if sizeLimit < n then (none, [])
      else
        let n := n * 10 + (c.toNat - 48)
        readDigits n (some n) rest
    else (spelled, c :: rest)

/-- Reads a number. -/
def readNumber (cs : List Char) : Option Nat × List Char := readDigits 0 none cs

namespace Reader

/-- Reads a position in brackets, counted from one, if there is one; tells whether a number was
found in the brackets. -/
def index (args : List Argument) (r : Reader) : Reader × Bool :=
  match r.rest with
  | '[' :: inside =>
    let r := { r with progress.reordered := true }
    let digits := inside.takeWhile (· != ']')
    if inside.length < 2 ∨ digits.length = inside.length then
      ({ r with rest := inside, sound := false }, false)
    else
      let r := { r with rest := inside.drop (digits.length + 1) }
      match readNumber digits with
      | (some n, []) =>
        if 1 ≤ n ∧ n ≤ args.length then ({ r with progress.next := n - 1 }, true)
        else ({ r with sound := false }, true)
      | _ => ({ r with sound := false }, false)
  | _ => (r, false)

/-- Takes the next argument as a size; none if it is no number or one past the limit. -/
def size (args : List Argument) (r : Reader) : Reader × Option Int :=
  match args[r.progress.next]? with
  | some a =>
    let r := { r with progress.next := r.progress.next + 1 }
    match a with
    | .number n => (r, if n.natAbs ≤ sizeLimit then some n else none)
    | .text _ => (r, none)
  | none => (r, none)

/-- Reads a width, if there is one.  A negative width from an argument asks for padding at the right
end.  `indexed` tells whether a position was read before; only an asterisk may follow it. -/
def width (args : List Argument) (indexed : Bool) (r : Reader) : Reader × Bool :=
  match r.rest with
  | '*' :: rest =>
    match { r with rest := rest }.size args with
    | (r, some n) =>
      let l := { r.layout with width := some n.natAbs }
      let l := if n < 0 then { l with leftAligned := true, zeros := false } else l
      ({ r with layout := l }, false)
    | (r, none) => ({ r with complaint := Bytes.ofString "%!(BADWIDTH)" }, false)
  | cs =>
    let (w, rest) := readNumber cs
    ({ r with rest := rest, layout.width := w, sound := r.sound && !(indexed && w.isSome) },
      indexed)

/-- Reads a precision, if there is one: a point, and a number or an asterisk or nothing, which
counts as zero. -/
def precision (args : List Argument) (indexed : Bool) (r : Reader) : Reader × Bool :=
  match r.rest with
  | '.' :: c :: more =>
    let r := { r with rest := c :: more, sound := r.sound && !indexed }
    let (r, indexed) := r.index args
    match r.rest with
    | '*' :: rest =>
      match { r with rest := rest }.size args with
      | (r, some (.ofNat n)) => ({ r with layout.precision := some n }, false)
      | (r, _) => ({ r with complaint := Bytes.ofString "%!(BADPREC)" }, false)
    | cs =>
      let (p, rest) := readNumber cs
      ({ r with rest := rest, layout.precision := some (p.getD 0) }, indexed)
  | _ => (r, indexed)

/-- Reads all of a hole but its verb. -/
def wishes (args : List Argument) (progress : Progress) (cs : List Char) : Reader :=
  let (l, rest) := readFlags {} cs
  let (r, indexed) := Reader.index args { rest := rest, layout := l, progress := progress }
  let (r, indexed) := r.width args indexed
  let (r, indexed) := r.precision args indexed
  if indexed then r else (r.index args).1

end Reader

/-! ### Filling a hole -/

/-- The layout for a verb: the verb `v` has no sign of its own, and its alternate form is that of a
program text. -/
def layoutFor (verb : Char) (l : Layout) : Layout :=
  if verb = 'v' then { l with verbatim := l.alternate, alternate := false, signed := false } else l

/-- What is shown for a verb that could not be used. -/
def unusable (verb : Char) (why : String) : Bytes :=
  Bytes.ofChars ['%', '!', verb] ++ Bytes.ofString why

/-- An argument as a verb writes it, and the padding kept for the next number.  If the verb is not
one for the argument, the argument is shown with the name of its type. -/
def fillWith (l : Layout) (verb : Char) (kept : Option Layout.Padding) (a : Argument) :
    Bytes × Option Layout.Padding :=
  if a.isPlainVerb verb then (a.plain l kept, a.keptBy l kept)
  else match a.written? l verb with
    | some bs => (bs, kept)
    | none =>
      (unusable verb "(" ++ a.typeName ++ Bytes.ofString "=" ++ a.plain l kept ++
        Bytes.ofString ")", a.keptBy l kept)

/-- Fills the hole whose text behind the per cent sign is given: what is shown, how far the template
has been filled then, and the text behind the hole. -/
def fillHole (args : List Argument) (progress : Progress) (cs : List Char) :
    Bytes × Progress × List Char :=
  let r := Reader.wishes args progress cs
  match r.rest with
  | [] => (Bytes.ofString "%!(NOVERB)", r.progress, [])
  | verb :: rest =>
    if verb = '%' then (Bytes.ofString "%", r.progress, rest)
    else if !r.sound then (unusable verb "(BADINDEX)", r.progress, rest)
    else match args[r.progress.next]? with
      | none => (unusable verb "(MISSING)", r.progress, rest)
      | some a =>
        let (bs, kept) := fillWith (layoutFor verb r.layout) verb r.progress.kept a
        (r.complaint ++ bs, { r.progress with next := r.progress.next + 1, kept := kept }, rest)

/-! ### Filling a template -/

/-- An argument with the name of its type. -/
def describe (a : Argument) : Bytes := a.typeName ++ Bytes.ofString "=" ++ a.plain {} none

/-- What is shown for arguments that no hole took, once some hole took one; nothing if a hole named
its argument. -/
def surplus (args : List Argument) (progress : Progress) : Bytes :=
  match args.drop progress.next with
  | [] => []
  | a :: rest =>
    if progress.reordered || progress.next == 0 then []
    else
      Bytes.ofString "%!(EXTRA " ++ describe a ++
        rest.flatMap (fun b => Bytes.ofString ", " ++ describe b) ++ Bytes.ofString ")"

/-- Fills the holes of a template from left to right; the first characters, of the given number,
belong to a hole already filled. -/
def fillFrom (args : List Argument) (progress : Progress) : Nat → List Char → Bytes
  | _, [] => surplus args progress
  | skip + 1, _ :: rest => fillFrom args progress skip rest
  | 0, c :: rest =>
    if c = '%' then
      let (shown, progress, behind) := fillHole args progress rest
      shown ++ fillFrom args progress (rest.length - behind.length) rest
    else String.utf8EncodeChar c ++ fillFrom args progress 0 rest

/-- A template with its holes filled. -/
def fill (template : String) (args : List Argument) : Bytes := fillFrom args {} 0 template.toList

end Template

end BootSector.Text
