import Octet.Machine.State
import Octet.Text.Utf8

/-! # One instruction

The machine reaches its host through a device, which can be asked for a byte and
sent a text for a channel. What the host does is unknown; it has a state of its
own, and it may answer, refuse, or break off. An instruction is a sequence of
actions on the machine and its host. One that is interrupted keeps what it has
changed so far, so it is up to the order of the actions whether it has an effect.
-/

namespace Octet

/-- How a host answers a call. -/
inductive Reply (α : Type) where
  | ok (value : α)
  | refused (failure : Failure)
  /-- The host breaks off with a failure. -/
  | broken (failure : Failure)
  /-- The host breaks off with no more than a text. -/
  | brokenText (text : String)
  deriving DecidableEq, Repr

/-- The device through which a machine reaches a host with states `σ`. -/
structure Device (σ : Type) where
  /-- Asks for a byte of input. -/
  read : σ → Reply UInt8 × σ
  /-- Sends a text to a channel. -/
  write : Channel → List UInt8 → σ → Reply Unit × σ

/-- Why an instruction did not complete. -/
inductive Interruption where
  /-- The instruction cannot be executed, or the host refused its call. -/
  | fault (reason : Failure)
  /-- The host broke off with a failure. -/
  | broken (failure : Failure)
  /-- The host broke off with a text. -/
  | brokenText (text : String)
  /-- The instruction touched a byte outside of the program, a register or slot that is not there.
  -/
  | outOfRange
  deriving DecidableEq, Repr

/-- What an instruction makes of an answer. -/
def Reply.result {α : Type} : Reply α → Except Interruption α
  | ok value => .ok value
  | refused failure => .error (.fault failure)
  | broken failure => .error (.broken failure)
  | brokenText text => .error (.brokenText text)

/-- The result of a binary operation, modulo 256; shifts by eight or more give zero. -/
def BinaryOp.apply (op : BinaryOp) (left right : UInt8) : Except Cause UInt8 :=
  match op with
  | mov => .ok right
  | add => .ok (left + right)
  | sub => .ok (left - right)
  | mul => .ok (left * right)
  | div => if right = 0 then .error .divisionByZero else .ok (left / right)
  | mod => if right = 0 then .error .divisionByZero else .ok (left % right)
  | and => .ok (left &&& right)
  | or => .ok (left ||| right)
  | xor => .ok (left ^^^ right)
  | shl => .ok (if right < 8 then left <<< right else 0)
  | shr => .ok (if right < 8 then left >>> right else 0)

/-- The result of a unary operation, modulo 256. -/
def UnaryOp.apply : UnaryOp → UInt8 → UInt8
  | not, value => ~~~value
  | inc, value => value + 1
  | dec, value => value - 1

/-- The text that a value is written as. -/
def Style.text : Style → UInt8 → List UInt8
  | decimal, value => utf8Bytes (toString value.toNat)
  | character, value => [value]

/-- A machine attached to a host with states `σ`. -/
structure Attached (σ : Type) where
  machine : Machine
  host : σ

/-- A part of an instruction. What it has changed before it is interrupted stays changed. -/
abbrev Action (σ α : Type) := EStateM Interruption (Attached σ) α

namespace Machine

variable {σ α : Type}

/-- The byte of the program a number of bytes after the current position. -/
def byteAt (machine : Machine) (distance : Nat) : Except Interruption UInt8 :=
  match machine.program.code[machine.pc + distance]? with
  | some byte => .ok byte
  | none => .error .outOfRange

/-- The branch target stored a number of bytes after the current position. -/
def addressAt (machine : Machine) (distance : Nat) : Except Interruption Nat := do
  let low ← machine.byteAt distance
  let high ← machine.byteAt (distance + 1)
  return addressOfBytes low high

/-- The value of the register whose index is stored a number of bytes after the current position. -/
def registerAt (machine : Machine) (distance : Nat) : Except Interruption UInt8 := do
  let index ← machine.byteAt distance
  match machine.registers[index.toNat]? with
  | some value => return value
  | none => throw .outOfRange

/-- The value that an operand gives. -/
def valueAt (machine : Machine) (mode : Mode) (distance : Nat) : Except Interruption UInt8 :=
  match mode with
  | .register => machine.registerAt distance
  | .immediate => machine.byteAt distance

/-- Stores a value in the register whose index is stored a number of bytes after the current
position. -/
def storeAt (machine : Machine) (distance : Nat) (value : UInt8) :
    Except Interruption Machine := do
  let index ← machine.byteAt distance
  if index.toNat < machine.registers.size then
    return { machine with registers := machine.registers.setIfInBounds index.toNat value }
  else throw .outOfRange

/-- Checks an operand: a register has to be there, and a branch target has to be one. -/
def checkOperand (machine : Machine) (distance : Nat) : OperandKind → Except Interruption Unit
  | .register => do
    let index ← machine.byteAt distance
    if index.toNat < machine.registers.size then return ()
    else throw (.fault (.context ("r" ++ toString index.toNat) (.cause .invalidRegister)))
  | .label => do
    let target ← machine.addressAt distance
    if machine.program.isTarget target then return ()
    else throw (.fault (.context (toString target) (.cause .invalidBranchTarget)))
  | .immediate => return ()

/-- Checks the operands of the given kinds that follow one another, the first one first. -/
def checkOperands (machine : Machine) (distance : Nat) :
    List OperandKind → Except Interruption Unit
  | [] => return ()
  | kind :: kinds => do
    machine.checkOperand distance kind
    machine.checkOperands (distance + kind.size) kinds

/-- The instruction at the current position, if it is complete and its operands are sound. -/
def decode (machine : Machine) : Except Interruption Opcode := do
  let byte ← machine.byteAt 0
  match Opcode.ofByte? byte with
  | none => throw (.fault (.cause .invalidOpcode))
  | some opcode =>
    if machine.program.size < machine.pc + opcode.size then
      throw (.fault (.cause .truncatedInstruction))
    else do
      machine.checkOperands 1 opcode.operands
      return opcode

/-- The machine after an instruction that ends at `pc`. -/
def complete (machine : Machine) (pc : Nat) : Machine :=
  { machine with pc, executed := machine.executed + 1 }

/-- What an instruction that meets a cause is interrupted by. -/
def interruptionOf : Cause → Interruption
  | .outOfRange => .outOfRange
  | cause => .fault (.cause cause)

/-- A result that the current instruction asked for. -/
def faultOf : Except Cause α → Except Interruption α
  | .ok value => .ok value
  | .error cause => .error (interruptionOf cause)

/-! ### Actions -/

/-- Looks something up in the machine. -/
def inspect (question : Machine → Except Interruption α) : Action σ α := fun attached =>
  match question attached.machine with
  | .ok value => .ok value attached
  | .error interruption => .error interruption attached

/-- Changes the machine. -/
def update (change : Machine → Except Interruption Machine) : Action σ Unit := fun attached =>
  let ⟨machine, host⟩ := attached
  match change machine with
  | .ok machine => .ok () ⟨machine, host⟩
  | .error interruption => .error interruption ⟨machine, host⟩

/-- Takes the value on top of the stack. -/
def takeTop : Action σ UInt8 := fun attached =>
  match faultOf attached.machine.stack.pop with
  | .ok (value, stack) =>
    let ⟨machine, host⟩ := attached
    .ok value ⟨{ machine with stack }, host⟩
  | .error interruption => .error interruption attached

/-- Ends the instruction with the next one a number of bytes further on. -/
def advance (size : Nat) : Action σ Unit :=
  update fun machine => .ok (machine.complete (machine.pc + size))

/-- Calls the host. -/
def consult (call : σ → Reply α × σ) : Action σ α := fun attached =>
  let ⟨machine, host⟩ := attached
  let (reply, host) := call host
  match reply.result with
  | .ok value => .ok value ⟨machine, host⟩
  | .error interruption => .error interruption ⟨machine, host⟩

/-- The answer to a request for a byte. The end of the input is a fault of its own. -/
def inputReply : Reply UInt8 → Reply UInt8
  | .refused failure => .refused (if failure.meansEndOfFile then .cause .endOfInput else failure)
  | reply => reply

/-- Asks the host for a byte. -/
def askByte (device : Device σ) (host : σ) : Reply UInt8 × σ :=
  let (reply, host) := device.read host
  (inputReply reply, host)

/-! ### Instructions -/

/-- Executes an instruction whose operands have been checked. -/
def execute (device : Device σ) : Opcode → Action σ Unit
  | .nop => advance 1
  | .halt => update fun machine => .ok (machine.complete machine.program.size)
  | .binary op mode => do
    let left ← inspect (registerAt · 1)
    let right ← inspect (valueAt · mode 2)
    let value ← inspect fun _ => faultOf (op.apply left right)
    update (storeAt · 1 value)
    advance 3
  | .unary op => do
    let value ← inspect (registerAt · 1)
    update (storeAt · 1 (op.apply value))
    advance 2
  | .push mode => do
    let value ← inspect (valueAt · mode 1)
    let stack ← inspect fun machine => faultOf (machine.stack.push value)
    update fun machine => .ok { machine with stack }
    advance 2
  | .pop => do
    let value ← takeTop
    update (storeAt · 1 value)
    advance 2
  | .peek => do
    let value ← inspect fun machine => faultOf machine.stack.peek
    update (storeAt · 1 value)
    advance 2
  | .drop => do
    let _ ← takeTop
    advance 1
  | .compare mode => do
    let left ← inspect (registerAt · 1)
    let right ← inspect (valueAt · mode 2)
    update fun machine => .ok { machine with flag := .ofCompare left right }
    advance 3
  | .branch condition => do
    let flag ← inspect fun machine => .ok machine.flag
    if condition.holds flag then
      let target ← inspect (addressAt · 1)
      update fun machine => .ok (machine.complete target)
    else advance 3
  | .input => do
    let value ← consult (askByte device)
    update (storeAt · 1 value)
    advance 2
  | .write channel style mode => do
    let value ← inspect (valueAt · mode 1)
    consult (device.write channel (style.text value))
    advance 2

/-- Executes the instruction at the current position, which lies inside the program. -/
def step (device : Device σ) : Action σ Unit := do
  let opcode ← inspect decode
  execute device opcode

end Machine

end Octet
