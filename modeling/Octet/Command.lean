import Octet.Cluster.File
import Octet.Command.Switch
import Octet.Host.Channels
import Octet.Machine.Report
import Octet.Settings

/-! # The command

The whole command as a function of its arguments, the stored files and its standard
input: it assembles or decodes one file and then saves it, shows it or runs it.
Settings come from a configuration file and from switches, which win. While a
program runs, its input is a stack of readers: the given files, and a console that
reads the standard input below them.
-/

namespace Octet

/-- The ending of the names of cluster files. -/
def clusterExtension : String := ".sal8c"

/-- What a command leaves behind. -/
structure Outcome where
  exit : Nat
  output : List UInt8
  error : List UInt8
  storage : Storage

namespace Command

/-! ### Switches and settings -/

/-- The switches of the command, by their names. -/
def switches : List Switch :=
  [⟨"c", .truth, "", "compile only, do not run"⟩,
   ⟨"config", .text, "filename", "load settings from TOML file filename"⟩,
   ⟨"debug", .truth, "", "enable debug diagnostics"⟩,
   ⟨"disasm", .truth, "", "print a disassembly of the program instead of running it"⟩,
   ⟨"dump", .truth, "", "dump VM state upon exit"⟩,
   ⟨"noraw", .truth, "", "disable raw terminal IO"⟩,
   ⟨"o", .text, "filename",
    "filename of the compiled cluster (default: source file name with .sal8c extension)"⟩,
   ⟨"registers", .number, "int", "number of VM registers (default 4)"⟩,
   ⟨"stack", .number, "int", "VM stack capacity (default 8)"⟩,
   ⟨"steps", .number, "int", "maximum number of instructions per run slice (0: unbounded)"⟩,
   ⟨"trace", .truth, "", "print each instruction to stderr before executing it"⟩,
   ⟨"v", .number, "int", "log verbosity"⟩,
   ⟨"with", .text, "filename",
    "Add filename to the input list (can be specified multiple times)"⟩]

/-- The switches that change settings. -/
def settingSwitches : List Switch :=
  switches.filter fun switch =>
    ["noraw", "registers", "stack", "steps", "trace", "v"].contains switch.name

/-- How to use the command. -/
def usage : String :=
  "Usage of sal8:\n" ++ String.join (switches.map Switch.helpText)

/-- The settings after a switch. -/
def applySwitch (settings : Settings) : String × SwitchValue → Settings
  | ("registers", .number value) => { settings with registers := value }
  | ("stack", .number value) => { settings with stack := value }
  | ("steps", .number value) => { settings with steps := value }
  | ("v", .number value) => { settings with verbosity := value }
  | ("trace", .truth value) => { settings with trace := value }
  | ("noraw", .truth value) => { settings with raw := !value }
  | _ => settings

/-- The settings after the switches of a command line. -/
def applySwitches (settings : Settings) (line : CommandLine) : Settings :=
  line.switches.foldl applySwitch settings

/-- The settings of a command line, and of its configuration file if it names one. -/
def settingsOf (storage : Storage) (line : CommandLine) :
    Except ConfigurationProblem Settings :=
  let file := line.text "config"
  let configured := if file.isEmpty then .ok .default else Settings.default.load storage file
  configured.map (applySwitches · line)

/-! ### Programs -/

/-- Why there is no program, and what was said about it before. -/
structure Refusal where
  diagnostics : String
  failure : Failure

/-- The program in a file: a cluster file is decoded, and anything else assembled. -/
def loadProgram (storage : Storage) (registers : Int) (file : String) : Except Refusal Cluster :=
  match storage.read file with
  | .error cause => .error ⟨"", .context "open failed" (.cause cause)⟩
  | .ok content =>
    if Image.isClusterFile content then
      (Image.toCluster content).mapError fun problem => ⟨"", problem.failure⟩
    else
      match Assembler.new registers [] with
      | .error failure => .error ⟨"", failure⟩
      | .ok assembler =>
        let assembled := assembler.assemble file (Source.ofBytes content none)
        assembled.result.mapError fun diagnostics =>
          ⟨String.join (assembled.messages.map (·.text)),
           .context file (.cause (.other
            ("compilation failed with " ++ toString diagnostics.length ++ " error(s)")))⟩

/-- A file name without its extension. -/
def withoutExtension (file : String) : String :=
  let reversed := file.toList.reverse
  match reversed.dropWhile fun c => c != '.' && c != '/' with
  | '.' :: stem => String.ofList stem.reverse
  | _ => file

/-- The name of the cluster file for a file. -/
def clusterFileFor (file : String) : String := withoutExtension file ++ clusterExtension

/-! ### Input -/

/-- A reader of a stored file. A folder can be opened as well, but refuses to be read. -/
def openReader (storage : Storage) (file : String) : Except Cause Reader :=
  match storage.read file with
  | .ok content => .ok (.ofBytes content none)
  | .error (.isDirectory verb name) =>
    .ok { Reader.ofBytes [] none with ending := .cause (.isDirectory verb name) }
  | .error cause => .error cause

/-- A console that reads the standard input, which is no terminal. What a program puts out can be
flushed whenever the console is read. -/
def standardConsole (standardInput : List UInt8) : Inlet :=
  .console ⟨some (.ofBytes standardInput none), false, none, .cause .endOfFile, 0⟩ rfl

/-- A host whose output goes to the system and whose input is the console. -/
def consoleHost (standardInput : List UInt8) : Host :=
  let channel : OutputChannel := ⟨.console, [], []⟩
  Host.pushReader ⟨.console, [], channel, channel, .cause .endOfFile, []⟩
    (some (standardConsole standardInput))

/-- Opens a file and puts its reader on top of the input of a host. -/
def pushFile (storage : Storage) (host : Host) (file : String) : Except Cause Host :=
  (openReader storage file).map fun reader => host.pushReader (some reader)

/-- The host of a program. The files are put on top of the console from the last one to the first,
so that they are read in the order in which they are given. -/
def hostOf (storage : Storage) (files : List String) (standardInput : List UInt8) :
    Except Cause Host :=
  files.reverse.foldlM (pushFile storage) (consoleHost standardInput)

/-- Runs a machine to its end, with or without announcing instructions. -/
def execute (fuel : Nat) (settings : Settings) (machine : Machine) (host : Host) :
    RunResult Host :=
  if settings.trace then machine.runTraced Host.device (Host.device.writer .error) fuel host
  else machine.runToEnd Host.device fuel settings.steps host

/-! ### The whole command -/

/-- The state of a machine as text. -/
def stateText (machine : Machine) : List UInt8 := utf8Bytes (String.join machine.statePieces)

/-- What a failure leaves behind: its text goes to the error channel, and on request the state of
the machine as well. -/
def failed (line : CommandLine) (storage : Storage) (output error : List UInt8)
    (machine : Option Machine) (failure : Failure) : Outcome where
  exit := 1
  output
  error := error ++ utf8Bytes ("\n" ++ failure.message ++ "\n")
    ++ (if line.isOn "debug" then (machine.map stateText).getD [] else [])
  storage

/-- The failure with which a run ended. -/
def endingFailure : Ending → Option Failure
  | .returned => none
  | .failed failure => some failure
  | .passedOn text => some (.cause (.other text))
  | .outOfFuel => some (.cause (.other "out of fuel"))

/-- The file in which a command line asks to save the program of a file. -/
def targetOf (line : CommandLine) (file : String) : String :=
  if (line.text "o").isEmpty then clusterFileFor file else line.text "o"

/-- Saves a program. -/
def save (line : CommandLine) (storage : Storage) (file : String) (program : Cluster) : Outcome :=
  match storage.saveCluster (targetOf line file) (some program) with
  | .ok storage => ⟨0, [], [], storage⟩
  | .error failure => failed line storage [] [] none failure

/-- Runs a program. -/
def start (fuel : Nat) (line : CommandLine) (settings : Settings) (storage : Storage)
    (standardInput : List UInt8) (program : Cluster) : Outcome :=
  match hostOf storage (line.texts "with") standardInput with
  | .error cause => failed line storage [] [] none (.cause cause)
  | .ok host =>
    match Machine.new settings.registers settings.stack [] with
    | .error failure => failed line storage [] [] none failure
    | .ok machine =>
      let result := execute fuel settings (machine.load program) host
      let output := result.host.output.console.reverse.flatten
      let error := result.host.error.console.reverse.flatten
      match endingFailure result.ending with
      | some failure => failed line storage output error (some result.machine) failure
      | none =>
        ⟨0, output ++ (if line.isOn "dump" then stateText result.machine else []), error, storage⟩

/-- Does what a command line asks for with its one file. -/
def process (fuel : Nat) (line : CommandLine) (settings : Settings) (storage : Storage)
    (standardInput : List UInt8) (file : String) : Outcome :=
  match loadProgram storage settings.registers file with
  | .error refusal => failed line storage [] (utf8Bytes refusal.diagnostics) none refusal.failure
  | .ok program =>
    if line.isOn "c" then save line storage file program
    else if line.isOn "disasm" then ⟨0, utf8Bytes (String.join program.listing), [], storage⟩
    else start fuel line settings storage standardInput program

/-- The command. -/
def run (fuel : Nat) (arguments : List String) (storage : Storage)
    (standardInput : List UInt8) : Outcome :=
  match CommandLine.ofArguments switches arguments with
  | .error .helpRequested => ⟨0, [], utf8Bytes usage, storage⟩
  | .error problem => ⟨2, [], utf8Bytes (problem.message ++ "\n" ++ usage), storage⟩
  | .ok line =>
    match settingsOf storage line with
    | .error problem => failed line storage [] [] none problem.failure
    | .ok settings =>
      match line.operands with
      | [file] => process fuel line settings storage standardInput file
      | _ =>
        failed line storage [] (utf8Bytes usage) none
          (.cause (.other "expected exactly one source or cluster file"))

end Command

end Octet
