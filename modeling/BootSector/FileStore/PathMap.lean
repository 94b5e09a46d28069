import BootSector.FileStore

/-!
# Path maps

The simplest store: a map from paths to contents.  Different paths stand for different files, a path
without a file cannot be opened, and a file can be put at every path.
-/

namespace BootSector

/-- **A map from paths to contents.** -/
structure PathMap where
  /-- The contents of the file at a path. -/
  file? : Bytes → Option Bytes
  /-- The error of opening a path without a file. -/
  refusal : Bytes → FileError

namespace PathMap

/-- The map with the given files. -/
def ofEntries (files : List (Bytes × Bytes)) : PathMap where
  file? path := files.lookup path
  refusal path := ⟨"open", [path], .notFound⟩

/-- The contents of the file at a path, or the error of opening it. -/
def read (m : PathMap) (path : Bytes) : Except FileError Bytes :=
  match m.file? path with
  | some contents => .ok contents
  | none => .error (m.refusal path)

/-- Puts a file at a path. -/
def put (m : PathMap) (path contents : Bytes) : PathMap :=
  { m with file? := fun q => if q = path then some contents else m.file? q }

instance : FileStore PathMap where
  openAt m path := (m.read path).map .file
  install m path contents := .ok (m.put path contents)

variable {m : PathMap} {path contents : Bytes}

@[simp] theorem file?_put_self : (m.put path contents).file? path = some contents :=
  if_pos rfl

theorem file?_put_of_ne {q : Bytes} (h : q ≠ path) : (m.put path contents).file? q = m.file? q :=
  if_neg h

@[simp] theorem refusal_put : (m.put path contents).refusal = m.refusal := rfl

/-- A path leads to a file or to nothing, so that the reading of a source is that of its contents. -/
theorem source_eq : FileStore.source m path = (m.read path).map Reading.ofBytes := by
  simp only [FileStore.source, FileStore.openAt]
  cases m.read path <;> rfl

/-- What is read at a path is settled by the file there and by the refusal. -/
theorem read_congr {m' : PathMap} (hfile : m'.file? path = m.file? path)
    (hrefusal : m'.refusal = m.refusal) : m'.read path = m.read path := by
  simp only [read, hfile, hrefusal]

end PathMap

end BootSector
