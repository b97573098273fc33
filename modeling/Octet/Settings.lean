import Octet.Assembler
import Octet.Machine.State
import Octet.Storage
import Octet.Text.Quoted
import Octet.Toml.Document

/-! # Settings

What can be set for a run, in a configuration file or on the command line. A
configuration file is a TOML document with one key for each setting, all of them
optional, in letters of either case. A key that is no setting is refused, but only
if every setting has a value of its kind.
-/

namespace Octet

/-- The settings of a run. -/
structure Settings where
  registers : Int
  stack : Int
  /-- The number of instructions of a slice; without a limit if it is not positive. -/
  steps : Int
  /-- Whether a terminal is put into raw mode. -/
  raw : Bool
  verbosity : Int
  /-- Whether instructions are announced. -/
  trace : Bool
  deriving DecidableEq, Repr

/-- The settings of a run that is not told otherwise. -/
def Settings.default : Settings where
  registers := defaultRegisters
  stack := defaultStackCapacity
  steps := 0
  raw := true
  verbosity := 0
  trace := false

/-- The names of the settings. -/
inductive Setting where
  | registers
  | stack
  | steps
  | raw
  | verbosity
  | trace
  deriving DecidableEq, Repr

namespace Setting

/-- All settings. -/
def all : List Setting := [registers, stack, steps, raw, verbosity, trace]

/-- The key of a setting. -/
def key : Setting → String
  | registers => "registers"
  | stack => "stack"
  | steps => "steps"
  | raw => "raw"
  | verbosity => "verbosity"
  | trace => "trace"

/-- A character without regard to its case: besides the capital letters, the Kelvin sign and the
long s stand for ASCII letters. -/
def foldCase (c : Char) : Char :=
  if c = '\u212a' then 'k' else if c = '\u017f' then 's' else c.toLower

/-- The setting that a key names. -/
def ofKey? (key : String) : Option Setting :=
  all.find? fun setting => setting.key.toList = key.toList.map foldCase

end Setting

/-- Why settings could not be read from a file. -/
inductive ConfigurationProblem where
  | unreadable (cause : Cause)
  /-- The file is no TOML document, or a setting has a value of another kind. -/
  | malformed (file : String)
  | unknownKey (file : String) (key : Toml.Key)
  deriving DecidableEq, Repr

/-- A character in the quoted part of a key. -/
def Toml.keyChar (c : Char) : String :=
  match c with
  | '"' => "\\\""
  | '\\' => "\\\\"
  | '\x08' => "\\b"
  | '\t' => "\\t"
  | '\n' => "\\n"
  | '\x0c' => "\\f"
  | '\r' => "\\r"
  | c =>
    if c.toNat < 32 ∨ c.toNat = 127 then "\\u" ++ hexText 4 c.toNat else c.toString

/-- A part of a key, in quotes if it needs them. -/
def Toml.keyPartText (part : String) : String :=
  if part.toList.all Toml.isBare && !part.isEmpty then part
  else "\"" ++ String.join (part.toList.map Toml.keyChar) ++ "\""

/-- A key as it is written. -/
def Toml.keyText (key : Toml.Key) : String :=
  String.intercalate "." (key.map Toml.keyPartText)

/-- A problem as a failure. -/
def ConfigurationProblem.failure : ConfigurationProblem → Failure
  | unreadable cause => .context "config" (.cause cause)
  | malformed file => .context file (.cause (.other "invalid configuration"))
  | unknownKey file key =>
    .context file (.cause (.other ("unknown configuration key " ++ quote (Toml.keyText key))))

namespace Settings

/-- The settings with one of them changed to a value of its kind. -/
def set (settings : Settings) : Setting → Toml.Node → Option Settings
  | .registers, .scalar (.integer value) => some { settings with registers := value }
  | .stack, .scalar (.integer value) => some { settings with stack := value }
  | .steps, .scalar (.integer value) => some { settings with steps := value }
  | .verbosity, .scalar (.integer value) => some { settings with verbosity := value }
  | .raw, .scalar (.boolean value) => some { settings with raw := value }
  | .trace, .scalar (.boolean value) => some { settings with trace := value }
  | _, _ => none

/-- The settings with those changed that a table has keys for. -/
def setAll (settings : Settings) : Toml.Table → Option Settings
  | [] => some settings
  | (key, node) :: rest =>
    match Setting.ofKey? key with
    | none => settings.setAll rest
    | some setting => (settings.set setting node).bind (setAll · rest)

/-- Whether a key is that of a setting. -/
def isKnown (key : Toml.Key) : Bool :=
  match key with
  | [name] => (Setting.ofKey? name).isSome
  | _ => false

/-- The settings with those changed that the configuration `file` has. -/
def configure (settings : Settings) (file : String) (content : List UInt8) :
    Except ConfigurationProblem Settings :=
  match Toml.Document.ofBytes content with
  | none => .error (.malformed file)
  | some document =>
    match settings.setAll document.root.reverse with
    | none => .error (.malformed file)
    | some settings =>
      match document.keys.reverse.find? (!isKnown ·) with
      | some key => .error (.unknownKey file key)
      | none => .ok settings

/-- The settings with those changed that a stored configuration file has. -/
def load (settings : Settings) (storage : Storage) (file : String) :
    Except ConfigurationProblem Settings :=
  match storage.read file with
  | .error cause => .error (.unreadable cause)
  | .ok content => settings.configure file content

end Settings

end Octet
