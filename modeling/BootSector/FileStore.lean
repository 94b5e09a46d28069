import BootSector.PathName
import BootSector.Reading

/-!
# File stores

Where sources and settings come from and images go to.  A store answers what stands at a path, and
takes a file to be put at a path.
-/

namespace BootSector

/-- **What is found at a path.** -/
inductive Entry where
  /-- A file with its contents. -/
  | file (contents : Bytes)
  /-- A directory. -/
  | directory
  deriving DecidableEq, Repr

/-- **A store of files.** -/
class FileStore (φ : Type) where
  /-- What stands at a path. -/
  openAt : φ → Bytes → Except FileError Entry
  /-- The store with a file put at a path, in place of a file that may be there. -/
  install : φ → Bytes → Bytes → Except FileError φ

namespace FileStore

variable {φ : Type} [FileStore φ]

/-- The error of reading a directory as if it were a file. -/
def readError (path : Bytes) : FileError := ⟨"read", [path], .isDirectory⟩

/-- The contents of a file. -/
def contents (store : φ) (path : Bytes) : Except FileError Bytes :=
  match openAt store path with
  | .error e => .error e
  | .ok (.file contents) => .ok contents
  | .ok .directory => .error (readError path)

/-- The reading of a source.  A directory can be opened, but reading it fails at once. -/
def source (store : φ) (path : Bytes) : Except FileError Reading :=
  match openAt store path with
  | .error e => .error e
  | .ok (.file contents) => .ok (.ofBytes contents)
  | .ok .directory => .ok (.ofError (readError path))

end FileStore

end BootSector
