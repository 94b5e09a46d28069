import BootSector.Text.Template

/-!
# Events

What is reported while sources are assembled, beside results and errors.
-/

namespace BootSector

/-- How much an event matters. -/
inductive Severity where
  | debug
  | warning
  deriving DecidableEq, Repr

/-- **Something worth reporting.** -/
inductive Event where
  /-- A source line is about to be read, at a location. -/
  | sourceLine (number : Nat) (location : UInt16) (text : Bytes)
  /-- A label or predefined name gets another address. -/
  | labelRedefined (label : Bytes) (line : Nat) (old new : UInt16)
  /-- A path that is no source. -/
  | skipped (path : Bytes)
  /-- Code that does not fit in front of the signature of its image. -/
  | oversize (path : Bytes) (size limit : Nat)
  deriving DecidableEq, Repr

namespace Event

/-- Source lines are for debugging; everything else is a warning. -/
def severity : Event → Severity
  | sourceLine .. => .debug
  | _ => .warning

/-- The wording of an event. -/
def message : Event → Bytes
  | sourceLine _ _ text => text
  | labelRedefined .. => Text.Template.fill "label redefined" []
  | skipped _ => Text.Template.fill "not a %v file, skipping" [.text (Bytes.ofString ".bit")]
  | oversize .. => Text.Template.fill "image exceeds boot sector" []

end Event

end BootSector
