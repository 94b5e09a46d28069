import BootSector.Text.Template

/-!
# Faults

Everything that can be wrong with a line, an operand, a reference or a predefined name, by cause.
The wording of each cause stands in one place, `Fault.message`.
-/

namespace BootSector

/-- **What the operating system answers** when it refuses to open, read or rename a file. -/
inductive FileFault where
  /-- Nothing has this name. -/
  | notFound
  /-- A part of the path that should be a directory is a file. -/
  | notDirectory
  /-- A directory stands where a file is read. -/
  | isDirectory
  /-- Something that cannot be replaced has this name. -/
  | alreadyExists
  /-- The name holds a byte that no name may hold. -/
  | invalidName
  /-- A part of the path is longer than a name may be. -/
  | nameTooLong
  /-- The name of a new file holds a separator. -/
  | separatorInName
  deriving DecidableEq, Repr

/-- The wording of a refusal. -/
def FileFault.message : FileFault → String
  | notFound => "no such file or directory"
  | notDirectory => "not a directory"
  | isDirectory => "is a directory"
  | alreadyExists => "file exists"
  | invalidName => "invalid argument"
  | nameTooLong => "file name too long"
  | separatorInName => "pattern contains path separator"

/-- **A file operation that failed**: what was attempted, on which paths, and the answer. -/
structure FileError where
  /-- The attempted operation. -/
  operation : String
  /-- The path, or the two paths, of the operation. -/
  paths : List Bytes
  /-- The answer. -/
  fault : FileFault
  deriving DecidableEq, Repr

/-- The operation, its paths and the answer. -/
def FileError.message (e : FileError) : Bytes :=
  Bytes.ofString e.operation ++ e.paths.flatMap (Bytes.ofString " " ++ ·) ++
    Bytes.ofString ": " ++ Bytes.ofString e.fault.message

/-- **Why assembly fails.** -/
inductive Fault where
  /-- A character that starts no token. -/
  | unexpectedCharacter
  /-- A binary literal of fewer than eight digits. -/
  | incompleteByte
  /-- A binary literal with a wrong digit or with more than eight. -/
  | malformedByte
  /-- A hexadecimal literal that has neither two nor four digits, or a wrong one. -/
  | invalidHex
  /-- A string literal without a closing quote. -/
  | unterminatedString
  /-- A parenthesis that is never closed. -/
  | mismatchedParen
  /-- A parenthesised group that is no arithmetic expression. -/
  | invalidArithmetic
  /-- A decimal literal that is no signed 32-bit number. -/
  | notNumber (word : Bytes)
  /-- A statement that starts with no mnemonic, directive or literal. -/
  | unsupportedStart
  /-- Operands that do not fit the statement. -/
  | invalidParameter
  /-- A count or address below zero. -/
  | negativeNumber
  /-- Code that leaves the 64K address space. -/
  | tooLarge
  /-- A reference to a name that nothing defines. -/
  | labelMissing (name : Bytes)
  /-- A jump over a distance that no signed byte holds. -/
  | displacementOutOfRange
  /-- An instruction that has no encoding. -/
  | invalidInstruction
  /-- A predefinition that is no integer formula. -/
  | notFormula (text : Bytes)
  /-- A predefinition whose value is no address. -/
  | predefineRange
  /-- A source line longer than a line may be. -/
  | lineTooLong
  /-- A source that cannot be read. -/
  | unreadable (e : FileError)
  deriving DecidableEq, Repr

/-- The wording of a fault. -/
def Fault.message : Fault → Bytes
  | unexpectedCharacter => Text.Template.fill "unexpected character" []
  | incompleteByte => Text.Template.fill "incomplete binary byte" []
  | malformedByte => Text.Template.fill "malformed binary byte" []
  | invalidHex => Text.Template.fill "invalid hex literal" []
  | unterminatedString => Text.Template.fill "unterminated string literal" []
  | mismatchedParen => Text.Template.fill "mismatched parenthesis" []
  | invalidArithmetic => Text.Template.fill "invalid arithmetic" []
  | notNumber word => Text.Template.fill "'%v' is not a number" [.text word]
  | unsupportedStart => Text.Template.fill "unsupported starting token" []
  | invalidParameter => Text.Template.fill "invalid parameter" []
  | negativeNumber => Text.Template.fill "number can not be negative" []
  | tooLarge => Text.Template.fill "statement exceeds 64K" []
  | labelMissing name => Text.Template.fill "label %v missing" [.text name]
  | displacementOutOfRange => Text.Template.fill "jump displacement out of range" []
  | invalidInstruction => Text.Template.fill "instruction invalid" []
  | notFormula text => Text.Template.fill "'%v' is not a valid expression" [.text text]
  | predefineRange => Text.Template.fill "predefine out of range" []
  | lineTooLong => Bytes.ofString "bufio.Scanner: token too long"
  | unreadable e => e.message

end BootSector
