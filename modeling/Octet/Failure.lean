import Octet.Opcode

/-! # Failures and what caused them

Every operation of the library that can be refused says so with a `Failure`: a
cause, inside any number of layers that say where it arose. The text of a
failure names the outermost layer first. Two questions are asked of a failure
and have different answers: `origin` looks through every layer, `root` stops at
a sealed one.
-/

namespace Octet

/-- Why an operation was refused, without the place where it happened. -/
inductive Cause where
  | stackOverflow
  | stackUnderflow
  | invalidRegister
  | invalidOpcode
  | truncatedInstruction
  | invalidBranchTarget
  | divisionByZero
  | endOfInput
  | clusterTooLarge
  | badClusterFile
  /-- A reader has delivered all of its bytes. -/
  | endOfFile
  /-- A reader was asked again and again and gave neither a byte nor a reason. -/
  | noProgress
  /-- A byte, a register or a slot was touched that is not there. -/
  | outOfRange
  | registerCount (count : Int)
  | stackCapacity (capacity : Int)
  | stackSlot (slot : Int) (size : Nat)
  | unknownOpcode (code : UInt8)
  | operandBytes (name : String) (expected given : Nat)
  | patchOffset (offset : Int) (size : Nat)
  /-- A path leads nowhere. -/
  | missingFile (verb path : String)
  | isDirectory (verb path : String)
  | notDirectory (verb path : String)
  | fileExists (verb path : String)
  | nameTooLong (verb path : String)
  /-- A path that no file can have. -/
  | invalidPath (verb path : String)
  /-- A refusal by the program that hosts the machine, in its own words. -/
  | host (text : String)
  /-- A refusal that is only known by its text. -/
  | other (text : String)
  deriving DecidableEq, Repr

/-- The text of a cause. -/
def Cause.message : Cause → String
  | stackOverflow => "stack overflow"
  | stackUnderflow => "stack underflow"
  | invalidRegister => "invalid register"
  | invalidOpcode => "invalid opcode"
  | truncatedInstruction => "truncated instruction"
  | invalidBranchTarget => "invalid branch target"
  | divisionByZero => "division by zero"
  | endOfInput => "end of input"
  | clusterTooLarge => "cluster too large"
  | badClusterFile => "not a SAL-8 cluster file"
  | endOfFile => "EOF"
  | noProgress => "multiple Read calls return no data or error"
  | outOfRange => "index out of range"
  | registerCount count => s!"register count {count} out of range [1:256]"
  | stackCapacity capacity => s!"stack capacity {capacity} out of range [1:256]"
  | stackSlot slot size => s!"stack slot {slot} out of range [0:{size}]"
  | unknownOpcode code => s!"invalid opcode {code.toNat}"
  | operandBytes name expected given =>
    s!"{name}: expected {expected} operand bytes, got {given}"
  | patchOffset offset size => s!"patch offset {offset} out of range [0:{size}]"
  | missingFile verb path => s!"{verb} {path}: no such file or directory"
  | isDirectory verb path => s!"{verb} {path}: is a directory"
  | notDirectory verb path => s!"{verb} {path}: not a directory"
  | fileExists verb path => s!"{verb} {path}: file exists"
  | nameTooLong verb path => s!"{verb} {path}: file name too long"
  | invalidPath verb path => s!"{verb} {path}: invalid argument"
  | host text => text
  | other text => text

/-- A cause and the layers that say where it arose. -/
inductive Failure where
  /-- The bare cause. -/
  | cause (reason : Cause)
  /-- A layer that names the place and lets the cause be seen. -/
  | context (text : String) (inner : Failure)
  /-- A layer of the same text that hides the cause from `root`. -/
  | sealed (text : String) (inner : Failure)
  /-- A fault of the instruction at `pc`, whose code is `opcode`. -/
  | runtime (pc : Nat) (opcode : UInt8) (inner : Failure)
  deriving DecidableEq, Repr

namespace Failure

/-- The text of a failure: the outer layers first, a colon and a blank between two of them. -/
def message : Failure → String
  | cause reason => reason.message
  | context text inner => text ++ ": " ++ inner.message
  | sealed text inner => text ++ ": " ++ inner.message
  | runtime pc opcode inner => s!"@pc={pc} ({Opcode.display opcode}): " ++ inner.message

/-- The cause under all layers. -/
def origin : Failure → Cause
  | cause reason => reason
  | context _ inner => inner.origin
  | sealed _ inner => inner.origin
  | runtime _ _ inner => inner.origin

/-- The innermost failure that can be seen: a sealed layer is not opened. -/
def root : Failure → Failure
  | cause reason => .cause reason
  | context _ inner => inner.root
  | sealed text inner => .sealed text inner
  | runtime _ _ inner => inner.root

/-- Whether a failure is the bare end of a reader's bytes. -/
def isEndOfFile (failure : Failure) : Bool := failure == .cause .endOfFile

/-- Whether a failure is seen to be the end of a reader's bytes. -/
def meansEndOfFile (failure : Failure) : Bool := failure.root.isEndOfFile

end Failure

end Octet
