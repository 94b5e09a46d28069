import BootSector.Bytes

/-!
# Path names

A path names a file by the directories on the way to it, with slashes between them.  The functions
here work on the name alone and look at no file.
-/

namespace BootSector.PathName

/-- The byte between the parts of a path. -/
def slash : UInt8 := 0x2F

/-- The byte in front of an extension. -/
def dot : UInt8 := 0x2E

/-- The part that stands for the directory itself. -/
def here : Bytes := [dot]

/-- The part that stands for the directory above. -/
def above : Bytes := [dot, dot]

/-! ### Extensions -/

/-- What stands behind the last slash. -/
def lastPart (path : Bytes) : Bytes := (path.reverse.takeWhile (· != slash)).reverse

/-- The extension of a path: the last dot behind the last slash, and what follows it. -/
def extension (path : Bytes) : Bytes :=
  let last := lastPart path
  if last.contains dot then dot :: (last.reverse.takeWhile (· != dot)).reverse else []

/-- The extension of sources. -/
def sourceExtension : Bytes := Bytes.ofString ".bit"

/-- The extension of images. -/
def imageExtension : Bytes := Bytes.ofString ".bin"

/-- Does the path name a source? -/
def isSource (path : Bytes) : Bool := extension path == sourceExtension

/-- **The path of the image of a source**: the extension is replaced. -/
def imageOf (path : Bytes) : Bytes :=
  path.take (path.length - (extension path).length) ++ imageExtension

/-! ### Parts -/

/-- The parts of a path, between its slashes. -/
def parts : Bytes → List Bytes
  | [] => [[]]
  | b :: rest =>
    if b = slash then [] :: parts rest
    else match parts rest with
      | [] => [[b]]
      | part :: more => (b :: part) :: more

/-- Does the path start at the root? -/
def isRooted (path : Bytes) : Bool := path.head? == some slash

/-- The parts of a path without detours: a part followed by the directory above it is left out. -/
def straighten (rooted : Bool) (parts : List Bytes) : List Bytes :=
  (parts.foldl step []).reverse
where
  /-- Adds a part to parts that come with the last one first. -/
  step (done : List Bytes) (part : Bytes) : List Bytes :=
    if part.isEmpty || part == here then done
    else if part == above then
      match done with
      | [] => if rooted then [] else [above]
      | last :: rest => if last == above then above :: done else rest
    else part :: done

/-- Parts with slashes between them. -/
def join (parts : List Bytes) : Bytes := [slash].intercalate parts

/-- The shortest path with the same meaning, if directories are what they seem. -/
def clean (path : Bytes) : Bytes :=
  let rooted := isRooted path
  let text := join (straighten rooted (parts path))
  if rooted then slash :: text else if text.isEmpty then here else text

/-- The directory of a path, cleaned. -/
def directory (path : Bytes) : Bytes :=
  clean (path.take (path.length - (lastPart path).length))

/-- The last part of a path, without slashes behind it. -/
def base (path : Bytes) : Bytes :=
  if path.isEmpty then here
  else
    let trimmed := (path.reverse.dropWhile (· == slash)).reverse
    if trimmed.isEmpty then [slash] else lastPart trimmed

/-- The path of a file in a directory. -/
def child (dir name : Bytes) : Bytes :=
  if dir.getLast? == some slash then dir ++ name else dir ++ slash :: name

end BootSector.PathName
