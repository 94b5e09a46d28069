import BootSector.Bytes

/-!
# Writing sources

A source text is built line by line: labels, statements and comments.
-/

namespace BootSector

/-- **A source text** that lines are added to. -/
structure SourceText where
  /-- The text so far. -/
  text : Bytes := []
  deriving DecidableEq, Repr

namespace SourceText

/-- Adds a label definition on a line of its own. -/
def label (s : SourceText) (name : Bytes) : SourceText :=
  ⟨s.text ++ name ++ Bytes.ofString ":\n"⟩

/-- Adds a statement. -/
def statement (s : SourceText) (mnemonic : Bytes) (operands : List Bytes) : SourceText :=
  ⟨s.text ++ mnemonic ++ operands.flatMap (Bytes.ofString " " ++ ·) ++ Bytes.ofString "\n"⟩

/-- Adds a comment line. -/
def comment (s : SourceText) (text : Bytes) : SourceText :=
  ⟨s.text ++ Bytes.ofString "; " ++ text ++ Bytes.ofString "\n"⟩

end SourceText

end BootSector
