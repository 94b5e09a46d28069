import BootSector.FileStore

/-!
# File trees

A tree of directories and files, as seen from a working directory.  The directories above the
working directory are there, and nothing else is known of them.  A path is followed part by part,
and every part but the last has to lead to a directory.
-/

namespace BootSector

/-- **A place in a file tree**: where a path leads. -/
structure Place where
  /-- Does the way start at the root, or at the working directory? -/
  rooted : Bool := false
  /-- The names on the way; the way from the working directory may first go up. -/
  names : List Bytes := []
  deriving DecidableEq, Repr

namespace Place

/-- Is the place the working directory, the root, or a directory above? -/
def isBase (p : Place) : Bool := p.names.all (· == PathName.above)

/-- The place above. -/
def parent (p : Place) : Place :=
  match p.names.getLast? with
  | none => if p.rooted then p else { p with names := [PathName.above] }
  | some name =>
    if name = PathName.above then { p with names := p.names ++ [PathName.above] }
    else { p with names := p.names.dropLast }

/-- The place that a part of a path leads to. -/
def enter (p : Place) (part : Bytes) : Place :=
  if part.isEmpty || part == PathName.here then p
  else if part = PathName.above then p.parent
  else { p with names := p.names ++ [part] }

/-- The place that a path names, if all directories are what they seem. -/
def ofPath (path : Bytes) : Place :=
  let rooted := PathName.isRooted path
  ⟨rooted, PathName.straighten rooted (PathName.parts path)⟩

/-- The path of a place. -/
def path (p : Place) : Bytes :=
  if p.rooted then PathName.slash :: PathName.join p.names else PathName.join p.names

/-- Does the place lie below another? -/
def isBelow (p q : Place) : Bool :=
  p.rooted == q.rooted && q.names.isPrefixOf p.names && q.names.length < p.names.length

end Place

/-- **A tree of files.** -/
structure FileTree where
  /-- The files with their contents. -/
  files : List (Place × Bytes) := []
  /-- The directories; a place above a file or directory is one as well. -/
  directories : List Place := []
  deriving DecidableEq, Repr

namespace FileTree

/-- Is there a directory at a place? -/
def isDirectory (t : FileTree) (p : Place) : Bool :=
  p.isBase || t.directories.any (fun d => d == p || d.isBelow p) || t.files.any (·.1.isBelow p)

/-- The contents of the file at a place. -/
def file? (t : FileTree) (p : Place) : Option Bytes := (t.files.find? (·.1 == p)).map (·.2)

/-- What stands at a place. -/
def entry? (t : FileTree) (p : Place) : Option Entry :=
  match t.file? p with
  | some contents => some (.file contents)
  | none => if t.isDirectory p then some .directory else none

/-- The length of the longest name. -/
def nameLimit : Nat := 255

/-- The length that a path stays below. -/
def pathLimit : Nat := 4096

/-- Follows the parts of a path from a place. -/
def follow (t : FileTree) (p : Place) : List Bytes → Except FileFault Place
  | [] => .ok p
  | part :: rest =>
    match t.entry? p with
    | none => .error .notFound
    | some (.file _) => .error .notDirectory
    | some .directory =>
      if nameLimit < part.length then .error .nameTooLong else t.follow (p.enter part) rest

/-- The place that a path leads to. -/
def locate (t : FileTree) (path : Bytes) : Except FileFault Place :=
  if path.isEmpty then .error .notFound
  else if path.contains 0 then .error .invalidName
  else if pathLimit ≤ path.length then .error .nameTooLong
  else t.follow ⟨PathName.isRooted path, []⟩ (PathName.parts path)

/-- Puts a file at a place. -/
def put (t : FileTree) (p : Place) (contents : Bytes) : FileTree :=
  { t with files := (p, contents) :: t.files.filter (·.1 != p) }

/-- What stands at a path. -/
def openAt (t : FileTree) (path : Bytes) : Except FileError Entry :=
  match t.locate path with
  | .error fault => .error ⟨"open", [path], fault⟩
  | .ok p =>
    match t.entry? p with
    | some entry => .ok entry
    | none => .error ⟨"open", [path], .notFound⟩

/-- The path of the file that is written before it is renamed to the given path, with the given end
of its name. -/
def temporaryWith (ending : Bytes) (path : Bytes) : Bytes :=
  PathName.child (PathName.directory path)
    (PathName.dot :: PathName.base path ++ PathName.dot :: ending)

/-- The path of the file that is written before it is renamed to the given path.  The end of its
name stands for a number. -/
def temporary (path : Bytes) : Bytes := temporaryWith (Bytes.ofString "TMP") path

/-- How many digits the number at the end of a temporary name has. -/
def temporaryDigits : Nat := 10

/-- Where the temporary file is put. -/
def locateTemporary (t : FileTree) (path : Bytes) : Except FileFault Place :=
  t.locate (temporaryWith (List.replicate temporaryDigits (Bytes.ofAscii '0')) path)

/-- Puts a file at a path: it is first written under another name beside it, and then renamed. -/
def install (t : FileTree) (path contents : Bytes) : Except FileError FileTree :=
  let base := PathName.base path
  if base.contains PathName.slash then
    .error ⟨"createtemp", [PathName.dot :: base ++ Bytes.ofString ".*"], .separatorInName⟩
  else
    let written := temporary path
    match t.locateTemporary path with
    | .error fault => .error ⟨"open", [written], fault⟩
    | .ok _ =>
      match t.locate path with
      | .error fault => .error ⟨"rename", [written, path], fault⟩
      | .ok p =>
        if t.isDirectory p then .error ⟨"rename", [written, path], .alreadyExists⟩
        else .ok (t.put p contents)

instance : FileStore FileTree where
  openAt := openAt
  install := install

/-- The tree with the given files and directories. -/
def ofEntries (files : List (Bytes × Bytes)) (directories : List Bytes) : FileTree :=
  { files := files.map fun (path, contents) => (Place.ofPath path, contents)
    directories := directories.map Place.ofPath }

/-- The files that are not in an earlier tree with the same contents, by their paths. -/
def changes (earlier now : FileTree) : List (Place × Bytes) :=
  (now.files.filter fun (p, contents) => earlier.file? p != some contents).mergeSort
    fun a b => decide (a.1.path ≤ b.1.path)

end FileTree

end BootSector
