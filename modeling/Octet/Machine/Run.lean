import Octet.Machine.Step

/-! # Running a program

A run executes instructions until the program ends, an instruction is
interrupted, or the given number of instructions is reached. A run without a
limit may not end, so the number of steps it may take is bounded by an explicit
fuel, and running out of it is an ending of its own.
-/

namespace Octet

/-- How a run ended. -/
inductive Ending where
  /-- The program ended or the limit was reached. -/
  | returned
  /-- An instruction was interrupted. -/
  | failed (failure : Failure)
  /-- The host broke off with a text, which the run passes on. -/
  | passedOn (text : String)
  /-- The fuel was used up before the program ended. -/
  | outOfFuel
  deriving DecidableEq, Repr

/-- A machine and its host after a run, and how the run ended. -/
structure RunResult (σ : Type) where
  ending : Ending
  machine : Machine
  host : σ

namespace Machine

variable {σ : Type}

/-- The state of a machine whose instruction was broken off. -/
def recoveryText (machine : Machine) : String :=
  "Recovered error @pc=" ++ toString machine.pc ++ "/" ++ toString machine.program.size
    ++ ", stack " ++ toString machine.stack.size ++ "/" ++ toString machine.stack.capacity

/-- What a run reports for an interruption: a fault names the instruction, whose code is `opcode`,
and a host that broke off with a failure, or an access out of range, is reported with the state
of the machine. -/
def endingOf (machine : Machine) (opcode : UInt8) : Interruption → Ending
  | .fault reason => .failed (.runtime machine.pc opcode reason)
  | .broken failure => .failed (.context machine.recoveryText failure)
  | .brokenText text => .passedOn text
  | .outOfRange => .failed (.context machine.recoveryText (.cause .outOfRange))

/-- Executes at most `count` instructions. -/
def runSteps (device : Device σ) : Nat → Machine → σ → RunResult σ
  | 0, machine, host => ⟨.returned, machine, host⟩
  | count + 1, machine, host =>
    if machine.finished then ⟨.returned, machine, host⟩
    else
      let opcode := machine.program.code.getD machine.pc 0
      match (step device).run ⟨machine, host⟩ with
      | .ok _ ⟨next, host⟩ => runSteps device count next host
      | .error interruption ⟨next, host⟩ => ⟨next.endingOf opcode interruption, next, host⟩

/-- Executes at most `limit` instructions, or as many as the program takes if `limit` is not
positive. -/
def run (device : Device σ) (fuel : Nat) (limit : Int) (machine : Machine) (host : σ) :
    RunResult σ :=
  if 0 < limit then machine.runSteps device limit.toNat host
  else
    let result := machine.runSteps device fuel host
    match result.ending with
    | .returned =>
      if result.machine.finished then result else { result with ending := .outOfFuel }
    | _ => result

end Machine

end Octet
