/-!
# Byte strings

Source lines, names, string literals and machine code are all finite strings of bytes.  None of them
has to be well-formed text: a line keeps whatever bytes the file holds, and a name is compared byte
by byte.
-/

namespace BootSector

/-- A finite string of bytes. -/
abbrev Bytes := List UInt8

namespace Bytes

/-- The UTF-8 bytes of a list of characters. -/
def ofChars (cs : List Char) : Bytes := cs.flatMap String.utf8EncodeChar

/-- The UTF-8 bytes of a string. -/
def ofString (s : String) : Bytes := ofChars s.toList

/-- The byte of an ASCII character. -/
def ofAscii (c : Char) : UInt8 := UInt8.ofNat c.toNat

/-- The two bytes of a 16-bit word, low byte first. -/
def littleEndian (w : UInt16) : Bytes := [w.toUInt8, (w >>> 8).toUInt8]

@[simp] theorem length_littleEndian (w : UInt16) : (littleEndian w).length = 2 := rfl

@[simp] theorem ofChars_nil : ofChars [] = [] := rfl

@[simp] theorem ofChars_cons (c : Char) (cs : List Char) :
    ofChars (c :: cs) = String.utf8EncodeChar c ++ ofChars cs := rfl

@[simp] theorem ofChars_append (cs ds : List Char) :
    ofChars (cs ++ ds) = ofChars cs ++ ofChars ds :=
  List.flatMap_append

end Bytes

end BootSector
