import Octet.Cluster
import Octet.Failure

/-! # The state of a machine

Registers, a stack of fixed capacity, the flag of the last comparison, the loaded
program and the position in it, and the number of instructions executed. The
operations that a host may apply between runs are here as well.
-/

namespace Octet

/-- The result of the last comparison. -/
inductive Flag where
  | unset
  | less
  | equal
  | greater
  deriving DecidableEq, Repr

namespace Flag

/-- The flag that comparing two values sets; values are unsigned. -/
def ofCompare (left right : UInt8) : Flag :=
  if left < right then less else if right < left then greater else equal

/-- The flag as a number, one bit for each result. -/
def toByte : Flag → UInt8
  | unset => 0
  | less => 1
  | equal => 2
  | greater => 4

end Flag

/-- Whether a branch on a condition is taken. Before any comparison nothing is equal, less or
greater. -/
def Condition.holds : Condition → Flag → Bool
  | always, _ => true
  | equal, flag => flag == .equal
  | notEqual, flag => flag != .equal
  | less, flag => flag == .less
  | lessOrEqual, flag => flag == .less || flag == .equal
  | greater, flag => flag == .greater
  | greaterOrEqual, flag => flag == .greater || flag == .equal

/-- A stack of fixed capacity. The slots from `size` on hold what was left there. -/
structure Stack where
  slots : Array UInt8
  size : Nat
  deriving DecidableEq, Repr

namespace Stack

/-- The empty stack of a capacity. -/
def new (capacity : Nat) : Stack := ⟨Array.replicate capacity 0, 0⟩

/-- The number of values that the stack can hold. -/
def capacity (stack : Stack) : Nat := stack.slots.size

/-- The values on the stack, the bottom one first. -/
def values (stack : Stack) : List UInt8 := stack.slots.toList.take stack.size

/-- Puts a value on top. -/
def push (stack : Stack) (value : UInt8) : Except Cause Stack :=
  if stack.size = stack.capacity then .error .stackOverflow
  else if stack.size < stack.capacity then
    .ok ⟨stack.slots.setIfInBounds stack.size value, stack.size + 1⟩
  else .error .outOfRange

/-- The value on top. -/
def peek (stack : Stack) : Except Cause UInt8 :=
  if stack.size = 0 then .error .stackUnderflow
  else
    match stack.slots[stack.size - 1]? with
    | some value => .ok value
    | none => .error .outOfRange

/-- Takes the value on top away. -/
def pop (stack : Stack) : Except Cause (UInt8 × Stack) :=
  match stack.peek with
  | .error cause => .error cause
  | .ok value => .ok (value, ⟨stack.slots, stack.size - 1⟩)

/-- Takes all values away and clears their slots. -/
def clear (stack : Stack) : Stack :=
  ⟨Array.replicate (min stack.size stack.slots.size) 0
    ++ stack.slots.extract stack.size stack.slots.size, 0⟩

end Stack

/-- The largest number of values that the stack of a machine can hold. -/
def maxStackCapacity : Nat := 256

/-- The number of values that the stack of a machine can hold that is not told otherwise. -/
def defaultStackCapacity : Nat := 8

/-- The state of a machine. -/
structure Machine where
  /-- The loaded program. -/
  program : Cluster
  /-- The offset of the next instruction. -/
  pc : Nat
  registers : Array UInt8
  stack : Stack
  flag : Flag
  /-- The number of instructions executed since the program was loaded or the machine reset. -/
  executed : Nat

namespace Machine

/-- A machine with cleared registers, an empty stack and no program, to which further settings are
applied in order. -/
def new (registers capacity : Int) (settings : List (Machine → Except Failure Machine)) :
    Except Failure Machine :=
  if registers < 1 ∨ 256 < registers then .error (.cause (.registerCount registers))
  else if capacity < 1 ∨ (maxStackCapacity : Int) < capacity then
    .error (.cause (.stackCapacity capacity))
  else
    settings.foldlM (fun machine setting => setting machine)
      { program := .empty
        pc := 0
        registers := Array.replicate registers.toNat 0
        stack := .new capacity.toNat
        flag := .unset
        executed := 0 }

/-- Loads a program. Registers, stack and flag stay as they are. -/
def load (machine : Machine) (program : Cluster) : Machine :=
  { machine with program, pc := 0, executed := 0 }

/-- Clears registers, stack and flag and goes back to the start of the program. -/
def reset (machine : Machine) : Machine :=
  { machine with
    registers := Array.replicate machine.registers.size 0
    stack := machine.stack.clear
    flag := .unset
    pc := 0
    executed := 0 }

/-- Whether there is nothing left to execute. -/
def finished (machine : Machine) : Bool := machine.program.size ≤ machine.pc

/-- The index of the next instruction in the program. -/
def instructionIndex (machine : Machine) : Nat := machine.program.indexAt machine.pc

/-- The failure for a register that the machine does not have. -/
def noRegister (index : Int) : Failure :=
  .context ("r" ++ toString index) (.cause .invalidRegister)

/-- The value of a register. -/
def register (machine : Machine) (index : Int) : Except Failure UInt8 :=
  match index with
  | .ofNat n =>
    match machine.registers[n]? with
    | some value => .ok value
    | none => .error (noRegister index)
  | .negSucc _ => .error (noRegister index)

/-- Sets a register. -/
def setRegister (machine : Machine) (index : Int) (value : UInt8) : Except Failure Machine :=
  if 0 ≤ index ∧ index.toNat < machine.registers.size then
    .ok { machine with registers := machine.registers.setIfInBounds index.toNat value }
  else .error (noRegister index)

/-- The value in a slot of the stack, slot zero being the bottom. -/
def stackValue (machine : Machine) (slot : Int) : Except Failure UInt8 :=
  if 0 ≤ slot ∧ slot.toNat < machine.stack.size then
    .ok (machine.stack.slots.getD slot.toNat 0)
  else .error (.cause (.stackSlot slot machine.stack.size))

/-- Overwrites a value on the stack in place; there is nothing to overwrite in other slots. -/
def poke? (machine : Machine) (slot : Int) (value : UInt8) : Option Machine :=
  if 0 ≤ slot ∧ slot.toNat < machine.stack.size then
    let stack := machine.stack
    some { machine with
      stack := { stack with slots := stack.slots.setIfInBounds slot.toNat value } }
  else none

/-- Puts a value on the stack. -/
def push (machine : Machine) (value : UInt8) : Except Failure Machine :=
  match machine.stack.push value with
  | .ok stack => .ok { machine with stack }
  | .error cause => .error (.cause cause)

/-- Takes a value from the stack. -/
def pop (machine : Machine) : Except Failure (UInt8 × Machine) :=
  match machine.stack.pop with
  | .ok (value, stack) => .ok (value, { machine with stack })
  | .error cause => .error (.cause cause)

end Machine

end Octet
