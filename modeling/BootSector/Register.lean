import BootSector.Bytes

/-!
# Registers

The eight byte registers and the eight word registers of the processor.  A register is encoded as
its index in its own class.
-/

namespace BootSector.Register

/-- The names of the byte registers, in the order of their indices. -/
def byteNames : List Bytes :=
  ["al", "cl", "dl", "bl", "ah", "ch", "dh", "bh"].map Bytes.ofString

/-- The names of the word registers, in the order of their indices. -/
def wordNames : List Bytes :=
  ["ax", "cx", "dx", "bx", "sp", "bp", "si", "di"].map Bytes.ofString

/-- The index of a name in a list of register names. -/
def indexIn? (names : List Bytes) (name : Bytes) : Option UInt8 :=
  (names.findIdx? (· == name)).map UInt8.ofNat

/-- The index of a byte register. -/
def byteIndex? (name : Bytes) : Option UInt8 := indexIn? byteNames name

/-- The index of a word register. -/
def wordIndex? (name : Bytes) : Option UInt8 := indexIn? wordNames name

end BootSector.Register
