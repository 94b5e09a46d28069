import BootSector.Assembler
import BootSector.Image
import BootSector.Toml.Document

/-!
# Settings

A settings file has a table for the assembler and one for the image.  What it does not set keeps its
default, and keys that name no setting are passed over.  Keys are matched without regard to case.
-/

namespace BootSector

/-- **The settings** for assembling a source and laying out its image. -/
structure Settings where
  /-- The address of the first statement. -/
  origin : Int64 := 0
  /-- Is a jump that is out of range a fault? -/
  strict : Bool := false
  /-- The formulas of predefined names. -/
  defines : List (Bytes × Bytes) := []
  /-- The full size of an image. -/
  size : Int64 := 512
  /-- The bytes that end an image. -/
  signature : List Int64 := [0x55, 0xAA]
  /-- The byte that fills up an image. -/
  fill : Int64 := 0
  deriving DecidableEq, Repr

/-- **Why settings cannot be used.** -/
inductive SettingsFault where
  /-- The file cannot be read. -/
  | unreadable (e : FileError)
  /-- The file is no proper document, or a setting has a value of the wrong type. -/
  | malformed
  /-- The size of the image is not positive. -/
  | imageSize
  /-- The filler is no byte. -/
  | fill
  /-- A part of the signature is no byte. -/
  | signature
  /-- The origin is no address. -/
  | origin
  deriving DecidableEq, Repr

/-- The wording of a fault. -/
def SettingsFault.message : SettingsFault → Bytes
  | unreadable e => e.message
  | malformed => Text.Template.fill "malformed settings" []
  | imageSize => Text.Template.fill "image size must be positive" []
  | fill => Text.Template.fill "fill byte must be 0..255" []
  | signature => Text.Template.fill "signature bytes must be 0..255" []
  | origin => Text.Template.fill "origin must be 0..65535" []

/-- **A settings file that cannot be used.** -/
structure SettingsError where
  /-- The path of the file. -/
  path : Bytes
  /-- What is wrong with it. -/
  fault : SettingsFault
  deriving DecidableEq, Repr

/-- The path and what is wrong. -/
def SettingsError.message (e : SettingsError) : Bytes :=
  e.path ++ Bytes.ofString ": " ++ e.fault.message

namespace Settings

/-! ### Reading -/

/-- The lower case of a character as far as the names of settings are concerned: ASCII letters, the
long s and the sign of the unit kelvin. -/
def foldCase (c : Char) : Char :=
  if c.toNat = 0x17F then 's' else if c.toNat = 0x212A then 'k' else c.toLower

/-- Does the key name the setting? -/
def isKeyOf (name : String) (key : Bytes) : Bool :=
  Text.Utf8.isValid key && (Text.Utf8.decode key).map foldCase == name.toList

/-- The integer of a value. -/
def integer? : Toml.Node → Option Int64
  | .scalar (.integer n) => some (Int64.ofInt n)
  | _ => none

/-- The truth value of a value. -/
def boolean? : Toml.Node → Option Bool
  | .scalar (.boolean b) => some b
  | _ => none

/-- The string of a value. -/
def string? : Toml.Node → Option Bytes
  | .scalar (.string s) => some s
  | _ => none

/-- The integers of an array. -/
def integers? : Toml.Node → Option (List Int64)
  | .array items => items.mapM integer?
  | _ => none

/-- Formulas with one more; a name that is already there gets the new formula. -/
def define : List (Bytes × Bytes) → Bytes → Bytes → List (Bytes × Bytes)
  | [], name, formula => [(name, formula)]
  | (n, f) :: rest, name, formula =>
    if n = name then (n, formula) :: rest else (n, f) :: define rest name formula

/-- The formulas with those of a table. -/
def defineAll? (defines : List (Bytes × Bytes)) : Toml.Table → Option (List (Bytes × Bytes))
  | [] => some defines
  | (name, value) :: rest => do
    let formula ← string? value
    defineAll? (define defines name formula) rest

/-- The settings with one more key of the assembler's table.  Formulas that are not given by a table
are passed over. -/
def withAssemblerKey? (s : Settings) (key : Bytes) (value : Toml.Node) : Option Settings :=
  if isKeyOf "origin" key then (integer? value).map ({ s with origin := · })
  else if isKeyOf "strict" key then (boolean? value).map ({ s with strict := · })
  else if isKeyOf "defines" key then
    match value with
    | .table entries => (defineAll? s.defines entries).map ({ s with defines := · })
    | _ => some s
  else some s

/-- The settings with one more key of the image's table. -/
def withImageKey? (s : Settings) (key : Bytes) (value : Toml.Node) : Option Settings :=
  if isKeyOf "size" key then (integer? value).map ({ s with size := · })
  else if isKeyOf "signature" key then (integers? value).map ({ s with signature := · })
  else if isKeyOf "fill" key then (integer? value).map ({ s with fill := · })
  else some s

/-- The settings with the keys of a value that has to be a table. -/
def withTable? (withKey? : Settings → Bytes → Toml.Node → Option Settings) (s : Settings) :
    Toml.Node → Option Settings
  | .table entries => entries.foldlM (fun s (key, value) => withKey? s key value) s
  | _ => none

/-- The settings with one more key of the document. -/
def withKey? (s : Settings) (key : Bytes) (value : Toml.Node) : Option Settings :=
  if isKeyOf "assembler" key then withTable? withAssemblerKey? s value
  else if isKeyOf "image" key then withTable? withImageKey? s value
  else some s

/-- The settings that a document holds. -/
def ofDocument? (text : Bytes) : Option Settings :=
  (Toml.read? text).bind fun t => withTable? withKey? {} (.table t)

/-! ### Use -/

/-- The byte of a number, if it is one. -/
def byte? (n : Int64) : Option UInt8 :=
  if 0 ≤ n ∧ n ≤ 255 then some n.toUInt64.toUInt8 else none

/-- **The image layout** that the settings describe. -/
def layout (s : Settings) : Except SettingsFault ImageLayout :=
  if s.size ≤ 0 then .error .imageSize
  else match byte? s.fill with
    | none => .error .fill
    | some fill =>
      match s.signature.mapM byte? with
      | none => .error .signature
      | some signature => .ok { size := s.size, signature := signature, fill := fill }

/-- The settings if all of them can be used. -/
def checked (s : Settings) : Except SettingsFault Settings :=
  match s.layout with
  | .error fault => .error fault
  | .ok _ => if s.origin < 0 ∨ 65535 < s.origin then .error .origin else .ok s

/-- **The settings of a file** with the given text. -/
def read (text : Bytes) : Except SettingsFault Settings :=
  match ofDocument? text with
  | none => .error .malformed
  | some s => s.checked

/-- The address of the first statement; an origin that is no address is cut to its low word. -/
def originAddress (s : Settings) : UInt16 := s.origin.toUInt64.toUInt16

/-- The formulas in the order of their names, byte for byte. -/
def sortedDefines (s : Settings) : List (Bytes × Bytes) :=
  s.defines.mergeSort fun a b => decide (a.1 ≤ b.1)

/-- **An assembler with the settings**: the origin, strictness, and the formulas in the order of
their names. -/
def apply (s : Settings) (a : Assembler) : Assembler :=
  s.sortedDefines.foldl (fun a (name, formula) => a.predefine name formula)
    { a with origin := s.originAddress, strict := s.strict }

end Settings

end BootSector
