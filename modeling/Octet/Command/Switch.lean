import Octet.Text.Numeral
import Octet.Text.Quoted

/-! # Switches of a command line

A command line starts with switches: a name after one or two hyphens, with a value
after an equals sign or in the next argument. A switch for a truth value takes a
value only after an equals sign. The switches end at the first argument that is
none, or after two hyphens alone.
-/

namespace Octet

/-- The kinds of values that switches take. -/
inductive SwitchKind where
  | truth
  | number
  | text
  deriving DecidableEq, Repr

/-- A switch and what is said of it. -/
structure Switch where
  name : String
  kind : SwitchKind
  /-- What its value is called; empty for a truth value. -/
  valueName : String
  help : String
  deriving DecidableEq, Repr

/-- The value of a switch. -/
inductive SwitchValue where
  | truth (value : Bool)
  | number (value : Int)
  | text (value : String)
  deriving DecidableEq, Repr

/-- Why a command line was refused. -/
inductive SwitchProblem where
  | malformed (argument : String)
  | unknown (name : String)
  /-- The switches themselves were asked for. -/
  | helpRequested
  | valueMissing (name : String)
  | invalidTruth (name value : String)
  | invalidNumber (name value : String) (problem : NumeralProblem)
  deriving DecidableEq, Repr

/-- The text of a problem. -/
def SwitchProblem.message : SwitchProblem → String
  | malformed argument => "bad flag syntax: " ++ argument
  | unknown name => "flag provided but not defined: -" ++ name
  | helpRequested => "flag: help requested"
  | valueMissing name => "flag needs an argument: -" ++ name
  | invalidTruth name value =>
    "invalid boolean value " ++ quote value ++ " for -" ++ name ++ ": parse error"
  | invalidNumber name value problem =>
    "invalid value " ++ quote value ++ " for flag -" ++ name ++ ": "
      ++ (match problem with
          | .malformed => "parse error"
          | .tooLarge => "value out of range")

/-- What an argument is by its form. -/
inductive Argument where
  /-- It is no switch, and none follows it. -/
  | operand
  /-- It ends the switches. -/
  | terminator
  | malformed
  | switch (name : String) (value : Option String)
  deriving DecidableEq, Repr

namespace Argument

/-- The switch whose text after the hyphens is given. A name does not start with a hyphen or an
equals sign. -/
def ofSwitch : List Char → Argument
  | [] => .malformed
  | first :: rest =>
    if first = '-' || first = '=' then .malformed
    else
      let name := String.ofList (first :: rest.takeWhile (· != '='))
      match rest.dropWhile (· != '=') with
      | [] => .switch name none
      | _ :: value => .switch name (some (String.ofList value))

/-- What an argument is by its form. -/
def ofText (text : String) : Argument :=
  match text.toList with
  | ['-', '-'] => .terminator
  | '-' :: '-' :: rest => ofSwitch rest
  | '-' :: first :: rest => ofSwitch (first :: rest)
  | _ => .operand

end Argument

/-- The truth value that a text stands for. -/
def readTruth (text : String) : Option Bool :=
  if ["1", "t", "T", "TRUE", "true", "True"].contains text then some true
  else if ["0", "f", "F", "FALSE", "false", "False"].contains text then some false
  else none

/-- The value that a switch takes from a text. -/
def Switch.read (switch : Switch) (text : String) : Except SwitchProblem SwitchValue :=
  match switch.kind with
  | .truth =>
    match readTruth text with
    | some value => .ok (.truth value)
    | none => .error (.invalidTruth switch.name text)
  | .number =>
    match readSignedNumeral text.toList with
    | .ok value => .ok (.number value)
    | .error problem => .error (.invalidNumber switch.name text problem)
  | .text => .ok (.text text)

/-- A command line: the values of its switches in order, and the arguments after them. -/
structure CommandLine where
  switches : List (String × SwitchValue)
  operands : List String
  deriving DecidableEq, Repr

namespace CommandLine

/-- Reads arguments after switches whose values are in `done`, which has the last one first. -/
def readFrom (known : List Switch) (done : List (String × SwitchValue)) :
    List String → Except SwitchProblem CommandLine
  | [] => .ok ⟨done.reverse, []⟩
  | argument :: rest =>
    match Argument.ofText argument with
    | .operand => .ok ⟨done.reverse, argument :: rest⟩
    | .terminator => .ok ⟨done.reverse, rest⟩
    | .malformed => .error (.malformed argument)
    | .switch name value =>
      match known.find? (·.name = name) with
      | none =>
        .error (if name = "help" ∨ name = "h" then .helpRequested else .unknown name)
      | some switch =>
        match value, switch.kind, rest with
        | some text, _, rest =>
          match switch.read text with
          | .ok value => readFrom known ((name, value) :: done) rest
          | .error problem => .error problem
        | none, .truth, rest => readFrom known ((name, .truth true) :: done) rest
        | none, _, text :: rest =>
          match switch.read text with
          | .ok value => readFrom known ((name, value) :: done) rest
          | .error problem => .error problem
        | none, _, [] => .error (.valueMissing name)

/-- Reads the arguments of a command that knows some switches. -/
def ofArguments (known : List Switch) (arguments : List String) :
    Except SwitchProblem CommandLine :=
  readFrom known [] arguments

/-- Whether a switch for a truth value is on; the last value given for it counts. -/
def isOn (line : CommandLine) (name : String) : Bool :=
  match line.switches.reverse.lookup name with
  | some (.truth value) => value
  | _ => false

/-- The text given with a switch, the empty one if there is none; the last one counts. -/
def text (line : CommandLine) (name : String) : String :=
  match line.switches.reverse.lookup name with
  | some (.text value) => value
  | _ => ""

/-- All texts given with a switch, in order. -/
def texts (line : CommandLine) (name : String) : List String :=
  line.switches.filterMap fun (given, value) =>
    match value with
    | .text value => if given = name then some value else none
    | _ => none

end CommandLine

/-- What is said of one switch. The help for a truth value with a name of one letter stands on the
same line. -/
def Switch.helpText (switch : Switch) : String :=
  let head := "  -" ++ switch.name
    ++ (if switch.valueName.isEmpty then "" else " " ++ switch.valueName)
  head ++ (if head.length ≤ 4 then "\t" else "\n    \t") ++ switch.help ++ "\n"

end Octet
