import BootSector.Text.Numeral
import BootSector.Text.Quoted
import BootSector.Text.Utf8

/-!
# Options of the command line

Flags have a name and some of them a letter.  A flag may take a value: behind an equals sign, as the
next argument, or, for a letter, right behind it.  Letters can be written together.  Everything that
is no flag is a path, and flags and paths may be mixed; behind `--` there are only paths.
-/

namespace BootSector.Command

/-! ### Flags -/

/-- **The flags of the command line.** -/
inductive Flag where
  | config
  | define
  | help
  | lang
  | listing
  | origin
  | output
  | strict
  | verbose
  deriving DecidableEq, Repr

namespace Flag

/-- All flags, by name. -/
def all : List Flag := [config, define, help, lang, listing, origin, output, strict, verbose]

/-- The name of a flag. -/
def name : Flag → String
  | config => "config"
  | define => "define"
  | help => "help"
  | lang => "lang"
  | listing => "listing"
  | origin => "origin"
  | output => "output"
  | strict => "strict"
  | verbose => "verbose"

/-- The letter of a flag. -/
def letter? : Flag → Option Char
  | define => some 'D'
  | help => some 'h'
  | listing => some 'l'
  | output => some 'o'
  | verbose => some 'v'
  | _ => none

/-- Is the flag a switch, which can go without a value? -/
def isSwitch : Flag → Bool
  | help | listing | strict | verbose => true
  | _ => false

/-- The flag with a name. -/
def ofName? (name : Bytes) : Option Flag := all.find? fun f => Bytes.ofString f.name == name

/-- The flag with a letter. -/
def ofLetter? (b : UInt8) : Option Flag := all.find? fun f => f.letter?.map Bytes.ofAscii == some b

/-- The flag as it is shown in a message. -/
def shown (f : Flag) : List Char :=
  match f.letter? with
  | some c => ['-', c, ',', ' ', '-', '-'] ++ f.name.toList
  | none => '-' :: '-' :: f.name.toList

end Flag

/-! ### Values -/

/-- **Why a value is refused.** -/
inductive ValueFault where
  /-- It is no value of the kind. -/
  | notWellFormed
  /-- It is too large. -/
  | tooLarge
  deriving DecidableEq, Repr

/-- The wording of a refusal. -/
def ValueFault.message : ValueFault → String
  | notWellFormed => "invalid syntax"
  | tooLarge => "value out of range"

/-- The value of a switch. -/
def readSwitch (value : Bytes) : Except ValueFault Bool :=
  if ["1", "t", "T", "TRUE", "true", "True"].any (Bytes.ofString · == value) then .ok true
  else if ["0", "f", "F", "FALSE", "false", "False"].any (Bytes.ofString · == value) then .ok false
  else .error .notWellFormed

/-- Is every underscore between digits, or between a base mark and a digit?  `afterDigit` tells
whether a digit or a base mark stands in front of the text. -/
def underscoresHold (afterDigit : Bool) : List Char → Bool
  | [] => afterDigit
  | c :: rest => (c != '_' || afterDigit) && underscoresHold (c != '_') rest

/-- The value of digits, which may have underscores among them, behind digits of value `high`.  The
first fault counts: a character that is no digit of the base, or a digit that makes the number too
large. -/
def readDigits (base limit high : Nat) : List Char → Except ValueFault Nat
  | [] => .ok high
  | c :: rest =>
    if c = '_' then readDigits base limit high rest
    else match Text.digitOf? base c with
      | none => .error .notWellFormed
      | some d =>
        if limit < high * base + d then .error .tooLarge
        else readDigits base limit (high * base + d) rest

/-- The base of a number, told by its first characters, and the digits behind them.  A zero in front
means octal. -/
def baseOf : List Char → Nat × List Char
  | '0' :: c :: d :: rest =>
    if c = 'b' ∨ c = 'B' then (2, d :: rest)
    else if c = 'o' ∨ c = 'O' then (8, d :: rest)
    else if c = 'x' ∨ c = 'X' then (16, d :: rest)
    else (8, c :: d :: rest)
  | '0' :: rest => (8, rest)
  | cs => (10, cs)

/-- The value of an address. -/
def readAddress (value : Bytes) : Except ValueFault UInt16 :=
  let cs := Text.Utf8.decode value
  if cs.isEmpty then .error .notWellFormed
  else
    let (base, digits) := baseOf cs
    match readDigits base 65535 0 digits with
    | .error fault => .error fault
    | .ok n =>
      if digits.contains '_' && !underscoresHold (base != 10) digits then .error .notWellFormed
      else .ok (UInt16.ofNat n)

/-! ### Options -/

/-- **What the flags ask for.** -/
structure Options where
  /-- The path of a settings file; none if empty. -/
  config : Bytes := []
  /-- The address of the first statement, in place of the one in the settings. -/
  origin : Option UInt16 := none
  /-- Is a jump that is out of range a fault?  In place of what the settings say. -/
  strict : Option Bool := none
  /-- The definitions, in order. -/
  defines : List Bytes := []
  /-- The path of the image; if empty, it is made from that of the source. -/
  output : Bytes := []
  /-- Is a listing printed? -/
  listing : Bool := false
  /-- Is every source line reported? -/
  verbose : Bool := false
  /-- The language of messages. -/
  language : Bytes := []
  /-- Is only the help text printed? -/
  help : Bool := false
  deriving DecidableEq, Repr

/-- **Why the arguments are refused.** -/
inductive UsageError where
  /-- A flag without a proper name. -/
  | malformedFlag (argument : Bytes)
  /-- A name that is no flag's. -/
  | unknownName (name : Bytes)
  /-- A letter that is no flag's, and the letters from there on. -/
  | unknownLetter (letter : UInt8) (letters : Bytes)
  /-- A flag that lacks its value. -/
  | valueMissing (argument : Bytes)
  /-- A letter that lacks its value, and the letters from there on. -/
  | letterValueMissing (letter : UInt8) (letters : Bytes)
  /-- A value that is refused, for the given kind of value. -/
  | invalidValue (flag : Flag) (value : Bytes) (kind : String) (fault : ValueFault)
  /-- Too few paths. -/
  | tooFewPaths (least given : Nat)
  deriving DecidableEq, Repr

/-- The character that a byte stands for by itself, in quotes. -/
def quotedByte (b : UInt8) : List Char := Text.quotedChar (Char.ofNat b.toNat)

/-- The wording of an error. -/
def UsageError.message : UsageError → Bytes
  | malformedFlag argument => Bytes.ofString "bad flag syntax: " ++ argument
  | unknownName name => Bytes.ofString "unknown flag: --" ++ name
  | unknownLetter letter letters =>
    Bytes.ofString "unknown shorthand flag: " ++ Bytes.ofChars (quotedByte letter) ++
      Bytes.ofString " in -" ++ letters
  | valueMissing argument => Bytes.ofString "flag needs an argument: " ++ argument
  | letterValueMissing letter letters =>
    Bytes.ofString "flag needs an argument: " ++ Bytes.ofChars (quotedByte letter) ++
      Bytes.ofString " in -" ++ letters
  | invalidValue flag value kind fault =>
    Bytes.ofString "invalid argument " ++ Bytes.ofChars (Text.quoted value) ++
      Bytes.ofString " for " ++ Bytes.ofChars (Text.quoted (Bytes.ofChars flag.shown)) ++
      Bytes.ofString " flag: " ++ Bytes.ofString kind ++ Bytes.ofString ": parsing " ++
      Bytes.ofChars (Text.quoted value) ++ Bytes.ofString ": " ++ Bytes.ofString fault.message
  | tooFewPaths least given =>
    Bytes.ofString "requires at least " ++ Bytes.ofChars (Text.decimal least) ++
      Bytes.ofString " arg(s), only received " ++ Bytes.ofChars (Text.decimal given)

namespace Options

/-- The options with a switch turned on or off. -/
def withSwitch (f : Flag) (value : Bytes) (change : Bool → Options) : Except UsageError Options :=
  match readSwitch value with
  | .ok b => .ok (change b)
  | .error fault => .error (.invalidValue f value "strconv.ParseBool" fault)

/-- The options with a value for a flag. -/
def set (o : Options) (f : Flag) (value : Bytes) : Except UsageError Options :=
  match f with
  | .config => .ok { o with config := value }
  | .define => .ok { o with defines := o.defines ++ [value] }
  | .help => withSwitch f value fun b => { o with help := b }
  | .lang => .ok { o with language := value }
  | .listing => withSwitch f value fun b => { o with listing := b }
  | .origin =>
    match readAddress value with
    | .ok addr => .ok { o with origin := some addr }
    | .error fault => .error (.invalidValue f value "strconv.ParseUint" fault)
  | .output => .ok { o with output := value }
  | .strict => withSwitch f value fun b => { o with strict := some b }
  | .verbose => withSwitch f value fun b => { o with verbose := b }

/-! ### Arguments -/

/-- The dash in front of flags. -/
def dash : UInt8 := 0x2D

/-- The byte between a flag and its value. -/
def equals : UInt8 := 0x3D

/-- The value of a switch that is given without one. -/
def on : Bytes := Bytes.ofString "true"

/-- What letters that are passed over start with. -/
def ignored : Bytes := Bytes.ofString "test."

/-- The options after some letters, with the argument behind them, and whether that was taken as a
value. -/
def letters (o : Options) (next : Option Bytes) : Bytes → Except UsageError (Options × Bool)
  | [] => .ok (o, false)
  | b :: rest =>
    if ignored.isPrefixOf (b :: rest) then .ok (o, false)
    else match Flag.ofLetter? b with
      | none => .error (.unknownLetter b (b :: rest))
      | some f =>
        if rest.head? = some equals ∧ 1 < rest.length then (o.set f (rest.drop 1)).map (·, false)
        else if f.isSwitch then
          match o.set f on with
          | .ok o => letters o next rest
          | .error e => .error e
        else if !rest.isEmpty then (o.set f rest).map (·, false)
        else match next with
          | some value => (o.set f value).map (·, true)
          | none => .error (.letterValueMissing b (b :: rest))

/-- The options after a flag that is given by name, with the argument behind it, and whether that
was taken as a value. -/
def named (o : Options) (next : Option Bytes) (argument : Bytes) :
    Except UsageError (Options × Bool) :=
  let body := argument.drop 2
  if body.head? = some dash ∨ body.head? = some equals then .error (.malformedFlag argument)
  else
    let name := body.takeWhile (· != equals)
    match Flag.ofName? name with
    | none => .error (.unknownName name)
    | some f =>
      if body.contains equals then (o.set f (body.drop (name.length + 1))).map (·, false)
      else if f.isSwitch then (o.set f on).map (·, false)
      else match next with
        | some value => (o.set f value).map (·, true)
        | none => .error (.valueMissing argument)

/-- Is the argument a flag or letters? -/
def isFlag (argument : Bytes) : Bool := argument.head? == some dash && 1 < argument.length

/-- The options after a flag or letters, with the argument behind them, and whether that was taken
as a value. -/
def flag (o : Options) (next : Option Bytes) (argument : Bytes) :
    Except UsageError (Options × Bool) :=
  if argument[1]? = some dash then o.named next argument else o.letters next (argument.drop 1)

/-- Reads arguments after options and paths; the paths come with the latest first, and `taken` tells
that the first argument is the value of the flag before it. -/
def readOnto (o : Options) (paths : List Bytes) (taken : Bool) :
    List Bytes → Except UsageError (Options × List Bytes)
  | [] => .ok (o, paths.reverse)
  | argument :: rest =>
    if taken then readOnto o paths false rest
    else if !isFlag argument then readOnto o (argument :: paths) false rest
    else if argument = [dash, dash] then .ok (o, paths.reverse ++ rest)
    else match o.flag rest.head? argument with
      | .ok (o, taken) => readOnto o paths taken rest
      | .error e => .error e

/-- **The options and paths** of a list of arguments. -/
def read (arguments : List Bytes) : Except UsageError (Options × List Bytes) :=
  readOnto {} [] false arguments

end Options

end BootSector.Command
