import BootSector.Command.Run
import BootSector.FileStore.Tree

/-!
# The command line

The files that the arguments name are loaded into a file tree, the command runs on the tree, and
what it changed is written back.
-/

namespace BootSector.Shell

/-- The string of a byte string. -/
def toText (bytes : Bytes) : String := String.ofList (Text.Utf8.decode bytes)

/-- The paths that lead to a path, and the path itself. -/
def waypoints (path : Bytes) : List Bytes :=
  let parts := PathName.parts path
  ((List.range parts.length).map fun n => PathName.join (parts.take (n + 1))).filter (!·.isEmpty)

/-- The paths that a run with the given arguments looks at. -/
def paths (arguments : List Bytes) : List Bytes :=
  match Command.Options.read arguments with
  | .error _ => []
  | .ok (o, sources) =>
    ((o.config :: o.output :: sources) ++ sources.map PathName.imageOf).flatMap waypoints

/-- What stands at a path. -/
def look (path : Bytes) : IO (Option Entry) := do
  try
    let found ← IO.FS.realPath (toText path)
    if ← found.isDir then return some .directory
    return some (.file (← IO.FS.readBinFile found).toList)
  catch _ => return none

/-- The tree of the files and directories at some paths. -/
def load (paths : List Bytes) : IO FileTree :=
  paths.foldlM (fun tree path => do
    match ← look path with
    | some (.file contents) => return tree.put (Place.ofPath path) contents
    | some .directory =>
      return { tree with directories := Place.ofPath path :: tree.directories }
    | none => return tree) {}

/-- Writes a file under another name beside its path and renames it. -/
def save (path contents : Bytes) : IO Unit := do
  let temporary := toText (FileTree.temporary path)
  IO.FS.writeBinFile temporary (ByteArray.mk contents.toArray)
  IO.FS.rename temporary (toText path)

/-- The line that tells of an event. -/
def report (e : Event) : Bytes :=
  let details :=
    match e with
    | .sourceLine number location _ =>
      Bytes.ofString s!" line={number} location={location.toNat}"
    | .labelRedefined label line old new =>
      Bytes.ofString " label=" ++ label ++
        Bytes.ofString s!" line={line} old={old.toNat} new={new.toNat}"
    | .skipped path => Bytes.ofString " file=" ++ path
    | .oversize path size limit =>
      Bytes.ofString " file=" ++ path ++ Bytes.ofString s!" bytes={size} limit={limit}"
  let level := match e.severity with | .debug => "debug: " | .warning => "warning: "
  Bytes.ofString level ++ e.message ++ details

end BootSector.Shell

open BootSector in
/-- Runs the command; the exit code tells whether it succeeded. -/
def main (arguments : List String) : IO UInt32 := do
  let arguments := arguments.map Bytes.ofString
  let tree ← Shell.load (Shell.paths arguments)
  let (p, error?) := Command.run tree arguments
  for e in p.events do
    IO.eprintln (Shell.toText (Shell.report e))
  IO.print (Shell.toText p.stdout)
  for (place, contents) in tree.changes p.store do
    Shell.save place.path contents
  match error? with
  | none => return 0
  | some e =>
    IO.eprintln (Shell.toText (Text.Template.fill "Error: %v" [.text e.message]))
    return 1
