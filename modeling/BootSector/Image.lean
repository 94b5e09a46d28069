import BootSector.Bytes
import BootSector.Sequence

/-!
# Boot-sector images

An image is the content, filler up to the threshold, and the signature.  The signature ends the
image at its full size if the content leaves room; content beyond the threshold is kept whole and
pushes the signature back.
-/

namespace BootSector

/-- **The layout of an image.** -/
structure ImageLayout where
  /-- The full size in bytes, as a signed 64-bit word. -/
  size : Int64 := 512
  /-- The bytes that end the image. -/
  signature : Bytes := [0x55, 0xAA]
  /-- The byte that fills the room in front of the signature. -/
  fill : UInt8 := 0
  deriving DecidableEq, Repr

namespace ImageLayout

/-- Where the signature starts, as long as the content leaves room for it.  The size and the length
of the signature are signed 64-bit words; a length beyond the largest word counts as that word. -/
def threshold (l : ImageLayout) : Nat :=
  (l.size - Int64.ofIntClamp l.signature.length).toNatClampNeg

/-- Does the content reach beyond the threshold? -/
def oversize (l : ImageLayout) (content : Bytes) : Bool := l.threshold < content.length

/-- How much filler stands between the content and the signature; negative if the content reaches
beyond the threshold. -/
def padding (l : ImageLayout) (content : Bytes) : Int := l.threshold - content.length

/-- The bytes of an image, as they are handed out. -/
def sequence (l : ImageLayout) (content : Bytes) : Sequence UInt8 :=
  .concat [.ofList content, .replicate (l.padding content) l.fill, .ofList l.signature]

/-- **The bytes of an image.** -/
def bytes (l : ImageLayout) (content : Bytes) : Bytes := (l.sequence content).toList

end ImageLayout

end BootSector
