/-! # Instructions of the eight bit machine

The fifty instruction codes, their names in assembly text, the kinds of their
operands and their size in a program. An instruction that takes its last value
from a register or from the program itself has one code for either mode, and
both modes share one name.
-/

namespace Octet

/-- What an operand of an instruction stands for. -/
inductive OperandKind where
  /-- The index of a register, one byte. -/
  | register
  /-- A value, one byte. -/
  | immediate
  /-- A branch target, two bytes, the low one first. -/
  | label
  deriving DecidableEq, Repr

namespace OperandKind

/-- The number of program bytes an operand takes. -/
def size : OperandKind → Nat
  | label => 2
  | register | immediate => 1

/-- The number of program bytes that operands of the given kinds take together. -/
def totalSize : List OperandKind → Nat
  | [] => 0
  | kind :: kinds => kind.size + totalSize kinds

/-- The word for an operand kind in diagnostics. -/
def name : OperandKind → String
  | register => "register"
  | immediate => "immediate"
  | label => "label"

/-- Operand kinds are numbered from one; zero and the numbers above three name none. -/
def ofNumber? : Nat → Option OperandKind
  | 1 => some register
  | 2 => some immediate
  | 3 => some label
  | _ => none

end OperandKind

/-- Where an instruction takes its last value from. -/
inductive Mode where
  | register
  | immediate
  deriving DecidableEq, Repr

/-- The operand kind that a mode asks for. -/
def Mode.kind : Mode → OperandKind
  | register => .register
  | immediate => .immediate

/-- Operations that combine a register with a second value and store the result in it. -/
inductive BinaryOp where
  | mov | add | sub | mul | div | mod | and | or | xor | shl | shr
  deriving DecidableEq, Repr

/-- Operations on one register. -/
inductive UnaryOp where
  | not | inc | dec
  deriving DecidableEq, Repr

/-- When a branch is taken. -/
inductive Condition where
  | always | equal | notEqual | less | lessOrEqual | greater | greaterOrEqual
  deriving DecidableEq, Repr

/-- The two channels that a program can write to. -/
inductive Channel where
  | output
  | error
  deriving DecidableEq, Repr

/-- How a value is written: as a decimal number or as one raw byte. -/
inductive Style where
  | decimal
  | character
  deriving DecidableEq, Repr

/-- An instruction without its operands. -/
inductive Opcode where
  | nop
  | halt
  | binary (op : BinaryOp) (mode : Mode)
  | unary (op : UnaryOp)
  | push (mode : Mode)
  | pop
  | peek
  | drop
  | compare (mode : Mode)
  | branch (condition : Condition)
  | input
  | write (channel : Channel) (style : Style) (mode : Mode)
  deriving DecidableEq, Repr

namespace Opcode

/-- The opcodes that share the name of a binary operation. -/
def binaryModes (op : BinaryOp) : List Opcode :=
  [binary op .register, binary op .immediate]

/-- The opcodes of one writing instruction. -/
def writeModes (channel : Channel) (style : Style) : List Opcode :=
  [write channel style .register, write channel style .immediate]

/-- All opcodes in the order of their codes. -/
def all : List Opcode :=
  [nop, halt]
    ++ [.mov, .add, .sub, .mul, .div, .mod, .and, .or, .xor, .shl, .shr].flatMap binaryModes
    ++ [unary .not, unary .inc, unary .dec,
        push .register, push .immediate, pop, peek, drop,
        compare .register, compare .immediate]
    ++ [.always, .equal, .notEqual, .less, .lessOrEqual, .greater, .greaterOrEqual].map branch
    ++ [input]
    ++ writeModes .output .decimal ++ writeModes .output .character
    ++ writeModes .error .decimal ++ writeModes .error .character

/-- The opcodes in the order of their codes, for look-up by code. -/
def table : Array Opcode := all.toArray

/-- The opcode with a given code; codes from fifty on name none. -/
def ofByte? (code : UInt8) : Option Opcode := table[code.toNat]?

/-- The code of an opcode, which is the first byte of the instruction. -/
def toByte (opcode : Opcode) : UInt8 := (all.idxOf opcode).toUInt8

/-- The name of an opcode in assembly text. -/
def name : Opcode → String
  | nop => "nop"
  | halt => "halt"
  | binary .mov _ => "mov"
  | binary .add _ => "add"
  | binary .sub _ => "sub"
  | binary .mul _ => "mul"
  | binary .div _ => "div"
  | binary .mod _ => "mod"
  | binary .and _ => "and"
  | binary .or _ => "or"
  | binary .xor _ => "xor"
  | binary .shl _ => "shl"
  | binary .shr _ => "shr"
  | unary .not => "not"
  | unary .inc => "inc"
  | unary .dec => "dec"
  | push _ => "push"
  | pop => "pop"
  | peek => "peek"
  | drop => "drop"
  | compare _ => "cmp"
  | branch .always => "jmp"
  | branch .equal => "je"
  | branch .notEqual => "jne"
  | branch .less => "jl"
  | branch .lessOrEqual => "jle"
  | branch .greater => "jg"
  | branch .greaterOrEqual => "jge"
  | input => "in"
  | write .output .decimal _ => "out"
  | write .output .character _ => "outc"
  | write .error .decimal _ => "err"
  | write .error .character _ => "errc"

/-- The kinds of an opcode's operands, in the order they are written and stored. -/
def operands : Opcode → List OperandKind
  | nop | halt | drop => []
  | binary _ mode | compare mode => [.register, mode.kind]
  | unary _ | pop | peek | input => [.register]
  | push mode | write _ _ mode => [mode.kind]
  | branch _ => [.label]

/-- The number of program bytes of an instruction, its code included. -/
def size (opcode : Opcode) : Nat :=
  1 + OperandKind.totalSize opcode.operands

/-- Whether the instruction sets the program counter to its operand. -/
def isBranch : Opcode → Bool
  | branch _ => true
  | _ => false

/-- The text that stands for a code in reports; a code that names no instruction is `???`. -/
def display (code : UInt8) : String :=
  match ofByte? code with
  | some opcode => opcode.name
  | none => "???"

/-- The size of the instruction that starts with a code, or zero if the code names none. -/
def sizeOfByte (code : UInt8) : Nat :=
  match ofByte? code with
  | some opcode => opcode.size
  | none => 0

end Opcode

/-- The two bytes of a branch target, the low one first; higher bits of the address are dropped. -/
def addressBytes (address : Int) : UInt8 × UInt8 :=
  ((address % 256).toNat.toUInt8, (address / 256 % 256).toNat.toUInt8)

/-- The branch target that two program bytes hold, the low one first. -/
def addressOfBytes (low high : UInt8) : Nat := low.toNat + 256 * high.toNat

end Octet
