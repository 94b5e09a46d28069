import BootSector.Text.Blank
import BootSector.Text.Quoted
import BootSector.Text.Template

/-!
# Definitions on the command line

A predefinition is given on the command line as a name, an equals sign and a formula, with blanks
around each of them as one likes.
-/

namespace BootSector.Command

/-- **A definition on the command line.** -/
structure Definition where
  /-- The definition as it is given. -/
  text : Bytes
  deriving DecidableEq, Repr

namespace Definition

/-- The byte between the name and the formula. -/
def equals : UInt8 := 0x3D

/-- What stands in front of the first equals sign, without blanks around it. -/
def name (d : Definition) : Bytes := Text.trim (d.text.takeWhile (· != equals))

/-- What stands behind the first equals sign, without blanks around it. -/
def formula (d : Definition) : Bytes := Text.trim ((d.text.dropWhile (· != equals)).drop 1)

/-- Are there an equals sign, a name and a formula? -/
def isComplete (d : Definition) : Bool :=
  d.text.contains equals && !d.name.isEmpty && !d.formula.isEmpty

/-- What is said of a definition that is not complete. -/
def complaint (d : Definition) : Bytes :=
  Bytes.ofChars (Text.quoted d.text) ++ Bytes.ofString ": " ++
    Text.Template.fill "define must be NAME=EXPR" []

end Definition

end BootSector.Command
