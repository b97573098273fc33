import Octet.Proofs.Machine.Run
import Octet.Proofs.Source.Layout

/-! # What a source means

The meaning of the statements of a source without any program bytes: a point is an
index into the instructions, a label stands for the point of the first instruction at
or after its definition, and values are numbers below 256. What an instruction does is
looked up by its name alone. An instruction that the table does not explain is stuck.
-/

namespace Octet

/-- What an instruction does with its operands. -/
inductive Effect where
  | nothing
  | halt
  | combine (result : Nat → Nat → Except Cause Nat)
  | change (result : Nat → Nat)
  | push
  | pop
  | peek
  | drop
  | compare
  | branch (taken : Flag → Bool)
  | input
  | write (channel : Channel) (text : Nat → List UInt8)

/-- A number by its decimal digits. -/
def decimalText (value : Nat) : List UInt8 := utf8Bytes (toString value)

/-- A number as the byte that it is. -/
def characterText (value : Nat) : List UInt8 := [value.toUInt8]

/-- The effect of the instruction with a name: `d` is the register that it changes, `s` the register
or value that it takes. -/
def effectOf? : String → Option Effect
  | "nop" => some .nothing
  | "halt" => some .halt
  | "mov" => some (.combine fun _ s => .ok s)
  | "add" => some (.combine fun d s => .ok ((d + s) % 256))
  | "sub" => some (.combine fun d s => .ok ((d + 256 - s) % 256))
  | "mul" => some (.combine fun d s => .ok (d * s % 256))
  | "div" => some (.combine fun d s => if s = 0 then .error .divisionByZero else .ok (d / s))
  | "mod" => some (.combine fun d s => if s = 0 then .error .divisionByZero else .ok (d % s))
  | "and" => some (.combine fun d s => .ok (d &&& s))
  | "or" => some (.combine fun d s => .ok (d ||| s))
  | "xor" => some (.combine fun d s => .ok (d ^^^ s))
  | "shl" => some (.combine fun d s => .ok (if s < 8 then d * 2 ^ s % 256 else 0))
  | "shr" => some (.combine fun d s => .ok (if s < 8 then d / 2 ^ s else 0))
  | "not" => some (.change fun d => 255 - d)
  | "inc" => some (.change fun d => (d + 1) % 256)
  | "dec" => some (.change fun d => (d + 255) % 256)
  | "push" => some .push
  | "pop" => some .pop
  | "peek" => some .peek
  | "drop" => some .drop
  | "cmp" => some .compare
  | "jmp" => some (.branch fun _ => true)
  | "je" => some (.branch fun flag => flag = .equal)
  | "jne" => some (.branch fun flag => flag ≠ .equal)
  | "jl" => some (.branch fun flag => flag = .less)
  | "jle" => some (.branch fun flag => flag = .less ∨ flag = .equal)
  | "jg" => some (.branch fun flag => flag = .greater)
  | "jge" => some (.branch fun flag => flag = .greater ∨ flag = .equal)
  | "in" => some .input
  | "out" => some (.write .output decimalText)
  | "outc" => some (.write .output characterText)
  | "err" => some (.write .error decimalText)
  | "errc" => some (.write .error characterText)
  | _ => none

/-- The state between two instructions: the point is the index of the next one, and the stack has
its top value first. -/
structure SourceState where
  point : Nat
  registers : List Nat
  stack : List Nat
  flag : Flag
  executed : Nat
  deriving DecidableEq, Repr

/-- The result of comparing two numbers. -/
def compareNumbers (left right : Nat) : Flag :=
  if left < right then .less else if left = right then .equal else .greater

namespace SourceState

/-- The number that an operand gives. -/
def value? (state : SourceState) : OperandValue → Option Nat
  | .register index => state.registers[index.toNat]?
  | .immediate value => some value.toNat
  | .label _ => none

/-- The state with a number in a register. -/
def set (state : SourceState) (index : UInt8) (value : Nat) : SourceState :=
  { state with registers := state.registers.set index.toNat value }

/-- The state after an instruction that goes to a point. -/
def goTo (state : SourceState) (point : Nat) : SourceState :=
  { state with point, executed := state.executed + 1 }

/-- The state after an instruction that goes on to the next one. -/
def next (state : SourceState) : SourceState := state.goTo (state.point + 1)

end SourceState

/-- What an effect sets out to do with some operands. -/
def Effect.intent? (statements : List Statement) (capacity : Nat) (state : SourceState) :
    Effect → List OperandValue → Option (Intent SourceState)
  | nothing, [] => some (.settle (.ok state.next))
  | halt, [] => some (.settle (.ok (state.goTo (instructionsOf statements).length)))
  | combine result, [.register d, s] => do
    let left ← state.registers[d.toNat]?
    let right ← state.value? s
    return .settle ((result left right).map fun value => (state.set d value).next)
  | change result, [.register d] => do
    let value ← state.registers[d.toNat]?
    return .settle (.ok (state.set d (result value)).next)
  | push, [s] => do
    let value ← state.value? s
    return .settle (
      if state.stack.length = capacity then .error .stackOverflow
      else .ok { state with stack := value :: state.stack }.next)
  | pop, [.register d] =>
    some (.settle (
      match state.stack with
      | [] => .error .stackUnderflow
      | top :: rest => .ok ({ state with stack := rest }.set d top).next))
  | peek, [.register d] =>
    some (.settle (
      match state.stack with
      | [] => .error .stackUnderflow
      | top :: _ => .ok (state.set d top).next))
  | drop, [] =>
    some (.settle (
      match state.stack with
      | [] => .error .stackUnderflow
      | _ :: rest => .ok { state with stack := rest }.next))
  | compare, [.register d, s] => do
    let left ← state.registers[d.toNat]?
    let right ← state.value? s
    return .settle (.ok { state with flag := compareNumbers left right }.next)
  | branch taken, [.label name] => do
    let target ← labelPoint? statements name
    return .settle (.ok (if taken state.flag then state.goTo target else state.next))
  | input, [.register d] => some (.read fun value => (state.set d value.toNat).next)
  | write channel text, [s] => do
    let value ← state.value? s
    return .write channel (text value) state.next
  | _, _ => none

namespace Effect

variable {statements : List Statement} {capacity : Nat} {state : SourceState} {d : UInt8}
  {s : OperandValue} {left right value : Nat}

theorem intent?_combine (result : Nat → Nat → Except Cause Nat)
    (hleft : state.registers[d.toNat]? = some left) (hright : state.value? s = some right) :
    (combine result).intent? statements capacity state [.register d, s] =
      some (.settle ((result left right).map fun value => (state.set d value).next)) := by
  simp [intent?, hleft, hright]

theorem intent?_change (result : Nat → Nat) (hvalue : state.registers[d.toNat]? = some value) :
    (change result).intent? statements capacity state [.register d] =
      some (.settle (.ok (state.set d (result value)).next)) := by
  simp [intent?, hvalue]

theorem intent?_push (hvalue : state.value? s = some value) :
    push.intent? statements capacity state [s] =
      some (.settle (if state.stack.length = capacity then .error .stackOverflow
        else .ok { state with stack := value :: state.stack }.next)) := by
  simp [intent?, hvalue]

theorem intent?_compare (hleft : state.registers[d.toNat]? = some left)
    (hright : state.value? s = some right) :
    compare.intent? statements capacity state [.register d, s] =
      some (.settle (.ok { state with flag := compareNumbers left right }.next)) := by
  simp [intent?, hleft, hright]

theorem intent?_branch (taken : Flag → Bool) {name : String} {target : Nat}
    (htarget : labelPoint? statements name = some target) :
    (branch taken).intent? statements capacity state [.label name] =
      some (.settle (.ok (if taken state.flag then state.goTo target else state.next))) := by
  simp [intent?, htarget]

theorem intent?_write (channel : Channel) (text : Nat → List UInt8)
    (hvalue : state.value? s = some value) :
    (write channel text).intent? statements capacity state [s] =
      some (.write channel (text value) state.next) := by
  simp [intent?, hvalue]

end Effect

/-- What the next instruction of some statements sets out to do. -/
def SourceState.intent? (statements : List Statement) (capacity : Nat) (state : SourceState) :
    Option (Intent SourceState) := do
  let instruction ← (instructionsOf statements)[state.point]?
  let effect ← effectOf? instruction.opcode.name
  effect.intent? statements capacity state (instruction.operands.map Operand.value)

/-- How the execution of some statements ended. It returns at the end and at the limit, and is stuck
at an instruction without a meaning. -/
inductive SourceEnding where
  | returned
  | interrupted (interruption : Interruption)
  | stuck
  | outOfFuel
  deriving DecidableEq, Repr

/-- The state and the host after the execution of some statements, and how it ended. -/
structure SourceResult (σ : Type) where
  ending : SourceEnding
  state : SourceState
  host : σ

namespace SourceState

variable {σ : Type} (statements : List Statement) (capacity : Nat) (device : Device σ)

/-- Executes at most `count` instructions of some statements. -/
def runSteps : Nat → SourceState → σ → SourceResult σ
  | 0, state, host => ⟨.returned, state, host⟩
  | count + 1, state, host =>
    if (instructionsOf statements).length ≤ state.point then ⟨.returned, state, host⟩
    else
      match state.intent? statements capacity with
      | none => ⟨.stuck, state, host⟩
      | some intent =>
        match intent.perform device host with
        | (.ok next, host) => runSteps count next host
        | (.error interruption, host) => ⟨.interrupted interruption, state, host⟩

/-- Executes at most `limit` instructions of some statements, or as many as they take if `limit` is
not positive. -/
def run (fuel : Nat) (limit : Int) (state : SourceState) (host : σ) : SourceResult σ :=
  if 0 < limit then runSteps statements capacity device limit.toNat state host
  else
    let result := runSteps statements capacity device fuel state host
    match result.ending with
    | .returned =>
      if (instructionsOf statements).length ≤ result.state.point then result
      else { result with ending := .outOfFuel }
    | _ => result

end SourceState

/-! ### The operations of the machine -/

/-- Operations on bytes are those of the table on the numbers that the bytes stand for. -/
theorem effectOf?_binary (op : BinaryOp) (mode : Mode) :
    ∃ result, effectOf? (Opcode.binary op mode).name = some (.combine result) ∧
      ∀ left right : UInt8,
        (op.apply left right).map UInt8.toNat = result left.toNat right.toNat := by
  -- the shifts of bytes take their counts modulo eight, so larger ones are told apart first
  have hbelow (right : UInt8) : right < 8 ↔ right.toNat < 8 := UInt8.lt_iff_toNat_lt
  cases op with
  | mov => exact ⟨_, rfl, fun left right => rfl⟩
  | add => exact ⟨_, rfl, fun left right => congrArg Except.ok (UInt8.toNat_add left right)⟩
  | sub =>
      refine ⟨_, rfl, fun left right => congrArg Except.ok ?_⟩
      have hright := right.toNat_lt
      rw [UInt8.toNat_sub]
      omega
  | mul => exact ⟨_, rfl, fun left right => congrArg Except.ok (UInt8.toNat_mul left right)⟩
  | div | mod =>
      refine ⟨_, rfl, ?_⟩
      intro left right
      by_cases hzero : right = 0
      · subst hzero
        rfl
      · have hpos : right.toNat ≠ 0 := fun hnone => hzero (UInt8.toNat_inj.mp hnone)
        simp [BinaryOp.apply, hzero, hpos, Except.map]
  | and => exact ⟨_, rfl, fun left right => congrArg Except.ok (UInt8.toNat_and left right)⟩
  | or => exact ⟨_, rfl, fun left right => congrArg Except.ok (UInt8.toNat_or left right)⟩
  | xor => exact ⟨_, rfl, fun left right => congrArg Except.ok (UInt8.toNat_xor left right)⟩
  | shl =>
      refine ⟨_, rfl, fun left right => congrArg Except.ok ?_⟩
      simp only [hbelow]
      split
      next hlt => rw [UInt8.toNat_shiftLeft, Nat.mod_eq_of_lt hlt, Nat.shiftLeft_eq]
      next => rfl
  | shr =>
      refine ⟨_, rfl, fun left right => congrArg Except.ok ?_⟩
      simp only [hbelow]
      split
      next hlt => rw [UInt8.toNat_shiftRight, Nat.mod_eq_of_lt hlt, Nat.shiftRight_eq_div_pow]
      next => rfl

/-- Changing a byte changes the number that it stands for. -/
theorem effectOf?_unary (op : UnaryOp) :
    ∃ result, effectOf? (Opcode.unary op).name = some (.change result) ∧
      ∀ value : UInt8, (op.apply value).toNat = result value.toNat := by
  cases op with
  | not => exact ⟨_, rfl, fun value => UInt8.toNat_not value⟩
  | inc => exact ⟨_, rfl, fun value => UInt8.toNat_add value 1⟩
  | dec =>
      refine ⟨_, rfl, ?_⟩
      intro value
      have hone : (1 : UInt8).toNat = 1 := rfl
      simp only [UnaryOp.apply, UInt8.toNat_sub, hone]
      omega

/-- A branch is taken for the flags that the table lists. -/
theorem effectOf?_branch (condition : Condition) :
    ∃ taken, effectOf? (Opcode.branch condition).name = some (.branch taken) ∧
      ∀ flag, condition.holds flag = taken flag := by
  cases condition <;> exact ⟨_, rfl, fun flag => by cases flag <;> rfl⟩

/-- The text of a byte is that of the number that it stands for. -/
theorem effectOf?_write (channel : Channel) (style : Style) (mode : Mode) :
    ∃ text, effectOf? (Opcode.write channel style mode).name = some (.write channel text) ∧
      ∀ value : UInt8, style.text value = text value.toNat := by
  cases channel <;> cases style <;>
    exact ⟨_, rfl, fun value => by simp [Style.text, decimalText, characterText]⟩

/-- Comparing bytes compares the numbers that they stand for. -/
theorem ofCompare_eq (left right : UInt8) :
    Flag.ofCompare left right = compareNumbers left.toNat right.toNat := by
  simp only [Flag.ofCompare, compareNumbers, UInt8.lt_iff_toNat_lt]
  split
  next => rfl
  next hnot =>
    split
    next hlt => rw [if_neg (by omega)]
    next => rw [if_pos (by omega)]

end Octet
