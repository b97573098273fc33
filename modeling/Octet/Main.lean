import Octet.Command

/-! # The program

Connects the command to the files and the standard channels of the system. The files
that a command line names are read first, then the command is run, and then what it
has left behind is written.
-/

namespace Octet.Program

/-- More instructions than any run takes. -/
def fuel : Nat := Nat.pow 2 64

/-- Why the system refused a file. -/
def causeOf (name : String) : IO.Error → Cause
  | .noFileOrDirectory .. => .missingFile "open" name
  | .inappropriateType .. => .isDirectory "open" name
  | error => .other ("open " ++ name ++ ": " ++ toString error)

/-- The storage with a file of the system, if that can be read. -/
def fetch (storage : Storage) (name : String) : IO Storage := do
  match ← (IO.FS.readBinFile name).toBaseIO with
  | .ok content => return storage.provide name content.toList
  | .error error =>
    match causeOf name error with
    | .isDirectory _ _ => return storage.provideFolder name
    | _ => return storage

/-- The rest of a stream, after what is in `done`. -/
partial def drain (stream : IO.FS.Stream) (done : ByteArray) : IO ByteArray := do
  let piece ← stream.read 4096
  if piece.isEmpty then return done else drain stream (done ++ piece)

/-- Writes what a command has left behind, and the file in which it saved a program. -/
def deliver (storage : Storage) (outcome : Outcome) (target : Option String) : IO UInt32 := do
  let output ← IO.getStdout
  output.write ⟨outcome.output.toArray⟩
  output.flush
  let error ← IO.getStderr
  error.write ⟨outcome.error.toArray⟩
  error.flush
  let saved : Option (String × List UInt8) := do
    let name ← target
    let content ← (outcome.storage.read name).toOption
    if (storage.read name).toOption = some content then none else some (name, content)
  match saved with
  | none => return outcome.exit.toUInt32
  | some (name, content) =>
    match ← (IO.FS.writeBinFile name ⟨content.toArray⟩).toBaseIO with
    | .ok _ => return outcome.exit.toUInt32
    | .error refusal =>
      let failure := Failure.context "create failed" (.cause (causeOf name refusal))
      error.putStr ("\n" ++ failure.message ++ "\n")
      return 1

end Octet.Program

open Octet in
/-- Runs the command with the arguments of the program. -/
def main (arguments : List String) : IO UInt32 := do
  let start := Storage.new ["work"]
  match CommandLine.ofArguments Command.switches arguments with
  | .error _ => Program.deliver start (Command.run Program.fuel arguments start []) none
  | .ok line =>
    let target := match line.operands with
      | [file] => if line.isOn "c" then some (Command.targetOf line file) else none
      | _ => none
    let named := line.text "config" :: line.texts "with" ++ line.operands
    let known ← named.foldlM Program.fetch start
    let storage := match target with
      | some name => known.paveTo name
      | none => known
    let runs := line.operands.length = 1 ∧ ¬ line.isOn "c" ∧ ¬ line.isOn "disasm"
    let input ← if runs then Program.drain (← IO.getStdin) .empty else pure .empty
    Program.deliver storage (Command.run Program.fuel arguments storage input.toList) target
