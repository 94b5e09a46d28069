import BootSector.Fault

/-!
# Reading source lines

A source is read line by line.  A newline ends a line, and a last line may go without; one carriage
return at the end of a line is dropped.  A line has to be shorter than 64K.  Reading stops at the
first line that is not, and what was read before it still counts.
-/

namespace BootSector

/-- **What reading a source gives**: its lines, and what ended the reading early, if anything did.
-/
structure Reading where
  /-- The lines that were read. -/
  lines : List Bytes
  /-- Why no further line was read. -/
  fault : Option Fault := none
  deriving DecidableEq, Repr

namespace Reading

/-- The newline byte. -/
def newline : UInt8 := 0x0A

/-- The carriage return byte. -/
def carriageReturn : UInt8 := 0x0D

/-- Puts a byte in front of a list of lines. -/
def consByte (b : UInt8) (lines : List Bytes) : List Bytes :=
  if b = newline then [] :: lines
  else match lines with
    | [] => [[b]]
    | line :: rest => (b :: line) :: rest

/-- The lines of a text, without their newlines.  There is no empty line behind a final newline. -/
def splitLines (text : Bytes) : List Bytes := text.foldr consByte []

/-- The number of bytes that a line stays below. -/
def lineLimit : Nat := 65536

/-- Is the line short enough to be read? -/
def fits (line : Bytes) : Bool := line.length < lineLimit

/-- A line without the carriage return at its end. -/
def dropReturn (line : Bytes) : Bytes :=
  if line.getLast? = some carriageReturn then line.dropLast else line

/-- **The reading of a text.** -/
def ofBytes (text : Bytes) : Reading :=
  let lines := splitLines text
  { lines := (lines.takeWhile fits).map dropReturn
    fault := if lines.all fits then none else some .lineTooLong }

/-- The reading of a source that cannot be read at all. -/
def ofError (e : FileError) : Reading := { lines := [], fault := some (.unreadable e) }

end Reading

end BootSector
