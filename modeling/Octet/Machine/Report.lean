import Octet.Disassembly
import Octet.Machine.Run

/-! # Watching a machine

The state of a machine as text, and runs in slices that may be traced: before
each instruction a line with its position and its text is written. What becomes
of the trace does not matter to the run.
-/

namespace Octet

/-- The sign of a flag in reports. -/
def Flag.sign : Flag → String
  | unset => "-"
  | less => "<"
  | equal => "="
  | greater => ">"

/-- Some values in decimal, with a blank between two of them, as separate pieces. -/
def valuePieces (values : List UInt8) : List String :=
  (values.map fun value => toString value.toNat).intersperse " "

namespace Machine

variable {σ : Type}

/-- The text of the position of a machine. -/
def positionText (machine : Machine) : String :=
  "PC:    " ++ toString machine.pc ++ "/" ++ toString machine.program.size
    ++ " (instruction " ++ toString machine.instructionIndex ++ "/"
    ++ toString machine.program.count ++ ")"

/-- The pieces that show the registers, the flag and the stack of a machine. -/
def contentPieces (machine : Machine) : List String :=
  ["\nRegs:  "] ++ valuePieces machine.registers.toList
    ++ ["\nCmp:   ", machine.flag.sign,
        "\nStack: " ++ toString machine.stack.size ++ "/" ++ toString machine.stack.capacity
          ++ " ["]
    ++ valuePieces machine.stack.values
    ++ ["]\n"]

/-- The pieces of the text that shows a machine: its position, with the instruction there unless the
program has ended, its registers, its flag and its stack. -/
def statePieces (machine : Machine) : List String :=
  [machine.positionText]
    ++ (if machine.finished then []
        else " " :: ((disassembleAt? machine.program.code machine.pc).map Prod.fst).getD [])
    ++ machine.contentPieces

/-- Writes the instruction at the position of a machine to an outlet, unless the program has
ended. -/
def instructionTo (writer : Writer σ) (machine : Machine) (outlet : Outlet σ) : Outlet σ :=
  if machine.finished then outlet
  else
    let outlet := (outlet.write writer (utf8Bytes " ")).2
    ((disassembleTo? writer machine.program.code machine.pc outlet).map Prod.snd).getD outlet

/-- Writes the state of a machine to an outlet. What becomes of the instruction shows in the outlet
only, which tracks the failures of all of its writes. -/
def dumpTo (writer : Writer σ) (machine : Machine) (outlet : Outlet σ) : Outlet σ :=
  let outlet := (outlet.track.write writer (utf8Bytes machine.positionText)).2
  (machine.instructionTo writer outlet).writeAll writer machine.contentPieces

/-- Writes the line that announces the next instruction. A write that fails ends the text of the
instruction, but neither the line nor the trace. -/
def traceLine (writer : Writer σ) (machine : Machine) (host : σ) : σ :=
  let host := (writer (utf8Bytes (offsetColumn machine.pc)) host).2
  let host :=
    match disassembleTo? writer machine.program.code machine.pc (.bare host) with
    | some (_, outlet) => outlet.target
    | none => host
  (writer (utf8Bytes "\n") host).2

/-- Runs a program to its end in slices of at most `limit` instructions, each slice starting with
what `before` does. There are at most `slices` slices. -/
def runSlices (device : Device σ) (before : Machine → σ → σ) (fuel : Nat) (limit : Int) :
    Nat → Machine → σ → RunResult σ
  | 0, machine, host => ⟨if machine.finished then .returned else .outOfFuel, machine, host⟩
  | slices + 1, machine, host =>
    if machine.finished then ⟨.returned, machine, host⟩
    else
      match machine.run device fuel limit (before machine host) with
      | ⟨.returned, machine, host⟩ => runSlices device before fuel limit slices machine host
      | result => result

/-- Runs a program to its end in slices of at most `limit` instructions, or without a limit if
`limit` is not positive. -/
def runToEnd (device : Device σ) (fuel : Nat) (limit : Int) (machine : Machine) (host : σ) :
    RunResult σ :=
  machine.runSlices device (fun _ host => host) fuel limit fuel host

/-- Runs a program to its end one instruction at a time and announces each of them. -/
def runTraced (device : Device σ) (writer : Writer σ) (fuel : Nat) (machine : Machine) (host : σ) :
    RunResult σ :=
  machine.runSlices device (traceLine writer) fuel 1 fuel host

end Machine

/-- The device of a host beside which something else is kept. -/
def Device.beside {σ τ : Type} (device : Device σ) : Device (σ × τ) where
  read := fun (host, other) =>
    let (reply, host) := device.read host
    (reply, (host, other))
  write := fun channel text (host, other) =>
    let (reply, host) := device.write channel text host
    (reply, (host, other))

/-- A writer kept beside a host. -/
def Writer.beside {σ τ : Type} (writer : Writer τ) : Writer (σ × τ) :=
  fun bytes (host, target) =>
    let (result, target) := writer bytes target
    (result, (host, target))

/-- The writer that sends each text to a channel of the host. -/
def Device.writer {σ : Type} (device : Device σ) (channel : Channel) : Writer σ := fun bytes host =>
  match device.write channel bytes host with
  | (.ok _, host) => (⟨bytes.length, none⟩, host)
  | (.refused failure, host) => (⟨0, some failure⟩, host)
  | (.broken failure, host) => (⟨0, some failure⟩, host)
  | (.brokenText text, host) => (⟨0, some (.cause (.other text))⟩, host)

end Octet
