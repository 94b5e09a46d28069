import BootSector.Command.Definition
import BootSector.Command.Options
import BootSector.FileStore
import BootSector.Program.Listing
import BootSector.Settings

/-!
# Running the command

The command assembles each source it is given to an image beside it.  Sources do not depend on each
other: a source that fails leaves no image, and the others are still assembled.  All failures are
reported together.
-/

namespace BootSector.Command

/-! ### Errors -/

/-- **Why a source has no image.** -/
inductive SourceFault where
  /-- A definition on the command line is not complete. -/
  | definition (d : Definition)
  /-- A file cannot be opened or written. -/
  | file (e : FileError)
  /-- The source cannot be assembled. -/
  | assembly (e : AssemblyError)
  deriving DecidableEq, Repr

/-- The wording of a fault. -/
def SourceFault.message : SourceFault → Bytes
  | definition d => d.complaint
  | file e => e.message
  | assembly e => e.message

/-- **A source that failed.** -/
structure SourceError where
  /-- The path of the source. -/
  path : Bytes
  /-- Why it failed. -/
  fault : SourceFault
  deriving DecidableEq, Repr

/-- The path and why it failed. -/
def SourceError.message (e : SourceError) : Bytes :=
  e.path ++ Bytes.ofString ": " ++ e.fault.message

/-- **Why the command fails.** -/
inductive CommandError where
  /-- The arguments are refused. -/
  | usage (e : UsageError)
  /-- The settings cannot be used. -/
  | settings (e : SettingsError)
  /-- No path names a source. -/
  | noSources
  /-- One image is asked for, of several sources. -/
  | severalSources
  /-- Some sources failed. -/
  | sources (errors : List SourceError)
  deriving DecidableEq, Repr

/-- The wording of an error. -/
def CommandError.message : CommandError → Bytes
  | usage e => e.message
  | settings e => e.message
  | noSources => Text.Template.fill "no .bit sources" []
  | severalSources => Text.Template.fill "output may only be set for a single input" []
  | sources errors =>
    let count := errors.length
    Bytes.ofChars (Text.decimal count) ++
      Bytes.ofString (if count = 1 then " error occurred:\n" else " errors occurred:\n") ++
      errors.flatMap (fun e => Bytes.ofString "\t* " ++ e.message ++ Bytes.ofString "\n") ++
      Bytes.ofString "\n"

/-! ### Assembling sources -/

/-- **A task**: how sources are assembled, and what is done with the result. -/
structure Task where
  /-- The settings. -/
  settings : Settings
  /-- The layout of images. -/
  layout : ImageLayout
  /-- The address of the first statement. -/
  origin : UInt16
  /-- Is a jump that is out of range a fault? -/
  strict : Bool
  /-- The definitions, in order. -/
  definitions : List Definition
  /-- The path of the image; if empty, it is made from that of the source. -/
  output : Bytes
  /-- Is a listing printed? -/
  listing : Bool
  /-- Is every source line reported? -/
  verbose : Bool
  /-- The evaluator of formulas. -/
  evaluate : Formula.Evaluator := Formula.evaluate?

/-- What happened to a store, and what was printed and reported. -/
structure Progress (φ : Type) where
  /-- The store. -/
  store : φ
  /-- What was printed. -/
  stdout : Bytes := []
  /-- What was reported. -/
  events : List Event := []
  deriving DecidableEq, Repr

/-- The listing of a source: its path, its rows, and its names. -/
def listingText (path : Bytes) (p : Program) : Bytes :=
  Bytes.ofString "; " ++ path ++ Bytes.ofString "\n" ++ (p.listing none).1.flatten ++
    p.symbols.flatMap fun (name, addr) =>
      Bytes.ofString ";       " ++
        Bytes.ofChars (Text.fixedHex Text.upperHexDigit 4 addr.toNat) ++
        Bytes.ofString " " ++ name ++ Bytes.ofString "\n"

namespace Task

/-- An assembler with further predefinitions, or the first definition that is not complete. -/
def define (a : Assembler) : List Definition → Except Definition Assembler
  | [] => .ok a
  | d :: rest => if d.isComplete then define (a.predefine d.name d.formula) rest else .error d

/-- The assembler for the sources of a task. -/
def assembler (task : Task) : Except Definition Assembler :=
  define
    { task.settings.apply { evaluate := task.evaluate } with
      origin := task.origin, strict := task.strict, verbose := task.verbose }
    task.definitions

/-- The path of the image of a source. -/
def imagePath (task : Task) (path : Bytes) : Bytes :=
  if task.output.isEmpty then PathName.imageOf path else task.output

variable {φ : Type} [FileStore φ]

/-- **Assembles a source** to an image. -/
def assemble (task : Task) (p : Progress φ) (path : Bytes) : Progress φ × Option SourceFault :=
  match task.assembler with
  | .error d => (p, some (.definition d))
  | .ok a =>
    match FileStore.source p.store path with
    | .error e => (p, some (.file e))
    | .ok reading =>
      let parsed := a.sweep reading
      let p := { p with events := p.events ++ parsed.events }
      match parsed.result with
      | .error e => (p, some (.assembly e))
      | .ok program =>
        match program.encode with
        | .error e => (p, some (.assembly e))
        | .ok code =>
          let p :=
            if task.layout.oversize code then
              { p with
                events := p.events ++ [.oversize path code.length task.layout.threshold] }
            else p
          let p :=
            if task.listing then { p with stdout := p.stdout ++ listingText path program } else p
          match FileStore.install p.store (task.imagePath path) (task.layout.bytes code) with
          | .error e => (p, some (.file e))
          | .ok store => ({ p with store := store }, none)

/-- Assembles sources in order, and tells which of them failed. -/
def assembleEach (task : Task) (p : Progress φ) : List Bytes → Progress φ × List SourceError
  | [] => (p, [])
  | path :: rest =>
    let (p, fault?) := task.assemble p path
    let (p, errors) := assembleEach task p rest
    (p, (fault?.map (⟨path, ·⟩)).toList ++ errors)

/-- **Assembles the sources among some paths.**  Other paths are passed over with a warning. -/
def assembleAll (task : Task) (p : Progress φ) (paths : List Bytes) :
    Progress φ × Option CommandError :=
  let sources := paths.filter PathName.isSource
  let others := paths.filter (!PathName.isSource ·)
  let p := { p with events := p.events ++ others.map .skipped }
  if sources.isEmpty then (p, some .noSources)
  else if !task.output.isEmpty && 1 < sources.length then (p, some .severalSources)
  else
    match task.assembleEach p sources with
    | (p, []) => (p, none)
    | (p, errors) => (p, some (.sources errors))

end Task

/-! ### The command -/

/-- The help text. -/
def helpText : String :=
  "Assemble each .bit source into a boot sector image.\n" ++
  "\n" ++
  "Usage:\n" ++
  "  bootsector [flags] FILE.bit...\n" ++
  "\n" ++
  "Flags:\n" ++
  "      --config FILE        TOML configuration file\n" ++
  "  -D, --define NAME=EXPR   predefine a name\n" ++
  "  -h, --help               print this text\n" ++
  "      --lang TAG           message language tag\n" ++
  "  -l, --listing            print a listing to stdout\n" ++
  "      --origin N           initial location counter\n" ++
  "  -o, --output FILE        output image (single input only)\n" ++
  "      --strict             fail on out of range jumps\n" ++
  "  -v, --verbose            verbose mode\n"

variable {φ : Type} [FileStore φ]

/-- The settings that the options ask for. -/
def loadSettings (store : φ) (o : Options) : Except SettingsError Settings :=
  if o.config.isEmpty then .ok {}
  else match FileStore.contents store o.config with
    | .error e => .error ⟨o.config, .unreadable e⟩
    | .ok text =>
      match Settings.read text with
      | .error fault => .error ⟨o.config, fault⟩
      | .ok s => .ok s

/-- The task that settings and options describe; options come before settings. -/
def Task.ofOptions (evaluate : Formula.Evaluator) (s : Settings) (layout : ImageLayout)
    (o : Options) : Task where
  settings := s
  layout := layout
  origin := o.origin.getD s.originAddress
  strict := o.strict.getD s.strict
  definitions := o.defines.map (⟨·⟩)
  output := o.output
  listing := o.listing
  verbose := o.verbose
  evaluate := evaluate

/-- **Runs the command** on a store with the given arguments. -/
def run (store : φ) (arguments : List Bytes) (evaluate : Formula.Evaluator := Formula.evaluate?) :
    Progress φ × Option CommandError :=
  let start : Progress φ := { store := store }
  match Options.read arguments with
  | .error e => (start, some (.usage e))
  | .ok (o, paths) =>
    if o.help then ({ start with stdout := Bytes.ofString helpText }, none)
    else if paths.isEmpty then (start, some (.usage (.tooFewPaths 1 0)))
    else match loadSettings store o with
      | .error e => (start, some (.settings e))
      | .ok s =>
        match s.layout with
        | .error fault => (start, some (.settings ⟨o.config, fault⟩))
        | .ok layout => (Task.ofOptions evaluate s layout o).assembleAll start paths

end BootSector.Command
