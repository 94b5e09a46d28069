import BootSector.Fault
import BootSector.Register
import BootSector.Text.Quoted

/-!
# Tokens

A source line is read as a list of tokens.  A token has a kind, and next to it a value, a text and a
position, of which each kind uses what it needs: literals have a value, names have a text, and a
jump remembers the address at which it stands.
-/

namespace BootSector

/-- **The kinds of tokens.**  Each has a number and a name. -/
inductive TokenKind where
  | none
  | byte
  | number
  | string
  | label
  | reference
  | register8
  | register16
  | times
  | org
  | offset
  | int
  | hlt
  | cli
  | lodsb
  | mov
  | or
  | jz
  | jmp
  | openParen
  | closeParen
  | plus
  | minus
  | multiply
  /-- A number that names no kind. -/
  | other (code : Int)
  deriving DecidableEq, Repr

namespace TokenKind

/-- The kinds that have a name, in the order of their numbers. -/
def named : List (TokenKind × String) :=
  [(none, "none"), (byte, "byte"), (number, "number"), (string, "string"), (label, "label"),
   (reference, "reference"), (register8, "reg8"), (register16, "reg16"), (times, "times"),
   (org, "org"), (offset, "offset"), (int, "int"), (hlt, "hlt"), (cli, "cli"), (lodsb, "lodsb"),
   (mov, "mov"), (or, "or"), (jz, "jz"), (jmp, "jmp"), (openParen, "("), (closeParen, ")"),
   (plus, "+"), (minus, "-"), (multiply, "*")]

/-- The kind with the given number. -/
def ofCode (code : Int) : TokenKind :=
  if code < 0 then other code
  else match named[code.toNat]? with
    | some (kind, _) => kind
    | .none => other code

/-- The name of a kind. -/
def name (kind : TokenKind) : List Char :=
  match kind with
  | other code => "TokenKind(".toList ++ Text.signedDecimal code ++ [')']
  | kind =>
    match named.find? (·.1 == kind) with
    | some (_, name) => name.toList
    | .none => []

/-- Is this the kind of an arithmetic operator? -/
def isOperator : TokenKind → Bool
  | plus | minus | multiply => true
  | _ => false

end TokenKind

/-- **A token** of a source line. -/
structure Token where
  /-- What the token is. -/
  kind : TokenKind
  /-- The value of a literal. -/
  value : Int32 := 0
  /-- The contents of a string, or the name of a label, reference or register. -/
  text : Bytes := []
  /-- The address at which a jump stands. -/
  position : UInt16 := 0
  deriving DecidableEq, Repr

namespace Token

/-! ### Tokens of each kind -/

/-- A byte literal. -/
def byte (value : UInt8) : Token := { kind := .byte, value := Int32.ofNat value.toNat }

/-- A number. -/
def number (value : Int32) : Token := { kind := .number, value }

/-- A string literal. -/
def string (text : Bytes) : Token := { kind := .string, text }

/-- The definition of a label. -/
def label (name : Bytes) : Token := { kind := .label, text := name }

/-- The use of a label. -/
def reference (name : Bytes) : Token := { kind := .reference, text := name }

/-- A token that is nothing but its kind. -/
def ofKind (kind : TokenKind) : Token := { kind }

/-- A jump that stands at the given address. -/
def jump (kind : TokenKind) (position : UInt16) : Token := { kind, position }

/-- The token of a register name. -/
def ofRegister? (name : Bytes) : Option Token :=
  if (Register.byteIndex? name).isSome then some { kind := .register8, text := name }
  else if (Register.wordIndex? name).isSome then some { kind := .register16, text := name }
  else none

/-- The mnemonics and directives. -/
def mnemonics : List (Bytes × TokenKind) :=
  [(Bytes.ofString "times", .times), (Bytes.ofString "org", .org),
   (Bytes.ofString "offset", .offset), (Bytes.ofString "int", .int),
   (Bytes.ofString "hlt", .hlt), (Bytes.ofString "cli", .cli),
   (Bytes.ofString "lodsb", .lodsb), (Bytes.ofString "mov", .mov),
   (Bytes.ofString "or", .or), (Bytes.ofString "jz", .jz), (Bytes.ofString "jmp", .jmp)]

/-- The kind that a mnemonic or directive stands for. -/
def mnemonic? (name : Bytes) : Option TokenKind :=
  (mnemonics.find? (·.1 == name)).map (·.2)

/-! ### Questions about a token -/

/-- Can the token be an operand of arithmetic? -/
def isValue (t : Token) : Bool := t.kind == .number || t.kind == .byte

/-- Is the token an arithmetic operator? -/
def isOperator (t : Token) : Bool := t.kind.isOperator

/-- The index of the register that the token names. -/
def register? (t : Token) : Option UInt8 :=
  match t.kind with
  | .register8 => Register.byteIndex? t.text
  | .register16 => Register.wordIndex? t.text
  | _ => none

/-- The token as it is shown: literals and names in source form, a jump with its address. -/
def write (t : Token) : Bytes :=
  match t.kind with
  | .byte =>
    Bytes.ofChars ('0' :: 'x' :: Text.fixedHex Text.lowerHexDigit 2 t.value.toUInt32.toNat)
  | .number => Bytes.ofChars (Text.signedDecimal t.value.toInt)
  | .string => Bytes.ofChars (Text.quoted t.text)
  | .label => t.text ++ [Bytes.ofAscii ':']
  | .reference | .register8 | .register16 => t.text
  | .jz | .jmp =>
    Bytes.ofChars (t.kind.name ++
      ('@' :: '0' :: 'x' :: Text.fixedHex Text.lowerHexDigit 4 t.position.toNat))
  | kind => Bytes.ofChars kind.name

end Token

end BootSector
