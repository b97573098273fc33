import Octet.Proofs.Assembler
import Octet.Proofs.Source.Meaning

/-! # Programs do what their sources mean

A machine that runs the program of some statements takes the same steps as the
statements themselves. The position of the machine is the offset of the point, and
registers, stack, flag and count are the same. One instruction is compared by what it
sets out to do, so the host is asked the same in either case.
-/

namespace Octet

variable {σ : Type}

/-! ### States -/

/-- What a machine holds, as a state at a point. -/
def Machine.sourceState (machine : Machine) (point : Nat) : SourceState where
  point := point
  registers := machine.registers.toList.map UInt8.toNat
  stack := (machine.stack.values.map UInt8.toNat).reverse
  flag := machine.flag
  executed := machine.executed

/-- The machine is at the point of the state and holds the same. -/
structure Matches (statements : List Statement) (state : SourceState) (machine : Machine) :
    Prop where
  holds : state = machine.sourceState state.point
  point : state.point ≤ (instructionsOf statements).length
  pc : machine.pc = offsetOf (instructionsOf statements) state.point

/-- The machine has the program of the statements, and the registers it needs. -/
structure Machine.Carries (registers : Nat) (code : Array UInt8) (machine : Machine) : Prop where
  program : machine.program = .ofCode code
  registers : registers ≤ machine.registers.size
  stack : machine.stack.WellFormed

/-- A completed instruction keeps the program and the registers. -/
theorem Machine.Carries.of_attempt {registers : Nat} {code : Array UInt8} {device : Device σ}
    {machine next : Machine} {host after : σ} (hcarries : machine.Carries registers code)
    (hattempt : machine.attempt device host = (.ok next, after)) :
    next.Carries registers code := by
  have hsucceeds := succeeds_of_attempt hattempt
  exact ⟨hsucceeds.program.trans hcarries.program,
    hsucceeds.registers.symm ▸ hcarries.registers, hsucceeds.stack hcarries.stack⟩

theorem Machine.sourceState_withRegister (machine : Machine) (distance : Nat) (value : UInt8)
    (point : Nat) :
    (machine.withRegister distance value).sourceState point =
      (machine.sourceState point).set (machine.operandByte distance) value.toNat := by
  simp [Machine.sourceState, SourceState.set, Machine.withRegister, List.map_set]

theorem Machine.length_sourceState_stack {machine : Machine} (hstack : machine.stack.WellFormed)
    (point : Nat) : (machine.sourceState point).stack.length = machine.stack.size := by
  simp [Machine.sourceState, Stack.length_values hstack]

theorem Machine.sourceState_stack_of_empty {machine : Machine} (hstack : machine.stack.WellFormed)
    (hempty : machine.stack.size = 0) (point : Nat) : (machine.sourceState point).stack = [] :=
  List.length_eq_zero_iff.mp ((machine.length_sourceState_stack hstack point).trans hempty)

/-- Pushing on the stack of the machine pushes on that of the state. -/
theorem Machine.sourceState_push {machine : Machine} {value : UInt8} {stack : Stack}
    (hpush : machine.stack.push value = .ok stack) (point : Nat) :
    { machine with stack }.sourceState point =
      { machine.sourceState point with
        stack := value.toNat :: (machine.sourceState point).stack } := by
  simp [Machine.sourceState, Stack.values_of_push hpush]

/-- The value that the machine pops is on top of the stack of the state. -/
theorem Machine.sourceState_stack_of_pop {machine : Machine} {value : UInt8} {stack : Stack}
    (hpop : machine.stack.pop = .ok (value, stack)) (point : Nat) :
    (machine.sourceState point).stack =
      value.toNat :: ({ machine with stack }.sourceState point).stack := by
  simp [Machine.sourceState, Stack.values_of_pop hpop]

/-- The machine and the state go to the same instruction. -/
theorem matches_goTo {statements : List Statement} (machine : Machine) (point : Nat)
    {target pc : Nat} (hle : target ≤ (instructionsOf statements).length)
    (hpc : pc = offsetOf (instructionsOf statements) target) :
    Matches statements ((machine.sourceState point).goTo target) (machine.complete pc) :=
  ⟨rfl, hle, hpc⟩

/-! ### Operands -/

/-- The operands that the machine finds from a number of bytes after its position on. -/
def Machine.Reads (statements : List Statement) (machine : Machine) (distance : Nat)
    (values : List OperandValue) : Prop :=
  OperandsAt machine.registers.size statements machine.program.code (machine.pc + distance) values

/-- A register of the machine holds the same in the state. -/
theorem Machine.sourceState_register {machine : Machine} {index : UInt8}
    (hlt : index.toNat < machine.registers.size) (point : Nat) :
    (machine.sourceState point).registers[index.toNat]? =
      some (machine.registers.getD index.toNat 0).toNat := by
  simp [Machine.sourceState, hlt]

/-- An operand gives the same value to the machine and to the state. -/
theorem Machine.value?_of_operandAt {statements : List Statement} {machine : Machine}
    {distance : Nat} {value : OperandValue} {mode : Mode} (hkind : value.kind = mode.kind)
    (hvalue : OperandAt machine.registers.size statements machine.program.code
      (machine.pc + distance) value) (point : Nat) :
    (machine.sourceState point).value? value =
      some (machine.operandValue mode distance).toNat := by
  cases value with
  | label name => cases mode <;> cases hkind
  | register index =>
      cases mode with
      | immediate => cases hkind
      | register =>
          obtain ⟨rfl, hlt⟩ := hvalue
          exact Machine.sourceState_register hlt point
  | immediate value =>
      cases mode with
      | register => cases hkind
      | immediate =>
          obtain rfl := hvalue
          rfl

section Instructions

variable {statements : List Statement} {machine : Machine} {point size : Nat} {mode : Mode}
  {values : List OperandValue}

/-- An instruction whose one operand is a register has the value of that register. -/
theorem Machine.Reads.register (hreads : machine.Reads statements 1 values)
    (hkinds : [OperandKind.register] = values.map OperandValue.kind) (point : Nat) :
    values = [.register (machine.operandByte 1)] ∧
      (machine.sourceState point).registers[(machine.operandByte 1).toNat]? =
        some (machine.operandRegister 1).toNat := by
  obtain ⟨s, rfl, hkind⟩ := List.map_eq_singleton_iff.mp hkinds.symm
  cases s with
  | immediate | label => cases hkind
  | register index =>
      obtain ⟨⟨rfl, hlt⟩, -⟩ := hreads
      exact ⟨rfl, Machine.sourceState_register hlt point⟩

/-- An instruction with one operand has the value that the operand gives. -/
theorem Machine.Reads.value (hreads : machine.Reads statements 1 values)
    (hkinds : [mode.kind] = values.map OperandValue.kind) (point : Nat) :
    ∃ s, values = [s] ∧
      (machine.sourceState point).value? s = some (machine.operandValue mode 1).toNat := by
  obtain ⟨s, rfl, hmode⟩ := List.map_eq_singleton_iff.mp hkinds.symm
  obtain ⟨hvalue, -⟩ := hreads
  exact ⟨s, rfl, Machine.value?_of_operandAt hmode hvalue point⟩

/-- An instruction with two operands has the values of a register and of its other operand. -/
theorem Machine.Reads.both (hreads : machine.Reads statements 1 values)
    (hkinds : [OperandKind.register, mode.kind] = values.map OperandValue.kind) (point : Nat) :
    ∃ s, values = [.register (machine.operandByte 1), s] ∧
      (machine.sourceState point).registers[(machine.operandByte 1).toNat]? =
        some (machine.operandRegister 1).toNat ∧
      (machine.sourceState point).value? s = some (machine.operandValue mode 2).toNat := by
  obtain ⟨d, rest, rfl, hkind, hrest⟩ := List.map_eq_cons_iff.mp hkinds.symm
  obtain ⟨s, rfl, hmode⟩ := List.map_eq_singleton_iff.mp hrest
  cases d with
  | immediate | label => cases hkind
  | register index =>
      obtain ⟨⟨rfl, hlt⟩, hsecond, -⟩ := hreads
      exact ⟨s, rfl, Machine.sourceState_register hlt point,
        Machine.value?_of_operandAt hmode hsecond point⟩

/-! ### Instructions -/

/-- What the table says of the name of an opcode is what the machine sets out to do for it. -/
def Machine.Means (statements : List Statement) (machine : Machine) (point : Nat) (opcode : Opcode)
    (values : List OperandValue) : Prop :=
  ∃ effect intent, effectOf? opcode.name = some effect ∧
    effect.intent? statements machine.stack.capacity (machine.sourceState point) values =
      some intent ∧
    intent.Related (Matches statements) (machine.intent opcode)

/-- The next instruction is a number of bytes further on, whatever else the machine comes to
hold. -/
def Machine.Advances (statements : List Statement) (machine : Machine) (point size : Nat) : Prop :=
  ∀ held : Machine,
    Matches statements (held.sourceState point).next (held.complete (machine.pc + size))

/-- A register is set on the way to the next instruction. -/
theorem Machine.Advances.set (hnext : machine.Advances statements point size) (held : Machine)
    (value : UInt8) :
    Matches statements ((held.sourceState point).set (held.operandByte 1) value.toNat).next
      ((held.withRegister 1 value).complete (machine.pc + size)) := by
  rw [← Machine.sourceState_withRegister]
  exact hnext _

/-- Two operands are combined on either side, or the operation refuses them on either side. -/
theorem Machine.means_binary {op : BinaryOp}
    (hkinds : (Opcode.binary op mode).operands = values.map OperandValue.kind)
    (hreads : machine.Reads statements 1 values)
    (hnext : machine.Advances statements point 3) :
    machine.Means statements point (.binary op mode) values := by
  obtain ⟨s, rfl, hleft, hright⟩ := hreads.both hkinds point
  obtain ⟨result, heffect, hresult⟩ := effectOf?_binary op mode
  refine ⟨_, _, heffect, Effect.intent?_combine result hleft hright, ?_⟩
  rw [← hresult]
  simp only [Machine.intent]
  cases op.apply (machine.operandRegister 1) (machine.operandValue mode 2) with
  | error cause => exact rfl
  | ok value => exact hnext.set machine value

/-- Two operands set the same flag on either side. -/
theorem Machine.means_compare
    (hkinds : (Opcode.compare mode).operands = values.map OperandValue.kind)
    (hreads : machine.Reads statements 1 values)
    (hnext : machine.Advances statements point 3) :
    machine.Means statements point (.compare mode) values := by
  obtain ⟨s, rfl, hleft, hright⟩ := hreads.both hkinds point
  refine ⟨_, _, rfl, Effect.intent?_compare hleft hright, ?_⟩
  rw [← ofCompare_eq]
  exact hnext { machine with
    flag := .ofCompare (machine.operandRegister 1) (machine.operandValue mode 2) }

/-- A register is changed in the same way on either side. -/
theorem Machine.means_unary {op : UnaryOp}
    (hkinds : (Opcode.unary op).operands = values.map OperandValue.kind)
    (hreads : machine.Reads statements 1 values)
    (hnext : machine.Advances statements point 2) :
    machine.Means statements point (.unary op) values := by
  obtain ⟨rfl, hvalue⟩ := hreads.register hkinds point
  obtain ⟨result, heffect, hresult⟩ := effectOf?_unary op
  refine ⟨_, _, heffect, Effect.intent?_change result hvalue, ?_⟩
  rw [← hresult]
  exact hnext.set machine (op.apply (machine.operandRegister 1))

/-- A value is pushed on either side, or there is no room on either side. -/
theorem Machine.means_push
    (hkinds : (Opcode.push mode).operands = values.map OperandValue.kind)
    (hreads : machine.Reads statements 1 values) (hstack : machine.stack.WellFormed)
    (hnext : machine.Advances statements point 2) :
    machine.Means statements point (.push mode) values := by
  obtain ⟨s, rfl, hvalue⟩ := hreads.value hkinds point
  refine ⟨_, _, rfl, Effect.intent?_push hvalue, ?_⟩
  simp only [Machine.intent]
  rw [machine.length_sourceState_stack hstack]
  cases hpush : machine.stack.push (machine.operandValue mode 1) with
  | error cause =>
      obtain ⟨hfull, rfl⟩ := Stack.push_eq_error hstack hpush
      rw [if_pos hfull]
      exact rfl
  | ok stack =>
      obtain ⟨hroom, -⟩ := Stack.push_eq_ok_iff.mp hpush
      rw [if_neg (Nat.ne_of_lt hroom), ← Machine.sourceState_push hpush]
      exact hnext { machine with stack }

/-- What is done with the top value is done on either side, or there is none on either side. -/
theorem Machine.related_pop (hstack : machine.stack.WellFormed)
    {finish : UInt8 × Stack → Machine} {expected : Nat → List Nat → SourceState}
    (hfinish : ∀ value stack,
      Matches statements (expected value.toNat ({ machine with stack }.sourceState point).stack)
        (finish (value, stack))) :
    (Intent.settle (match (machine.sourceState point).stack with
      | [] => .error .stackUnderflow
      | top :: rest => .ok (expected top rest))).Related (Matches statements)
        (.settle (machine.stack.pop.map finish)) := by
  cases hpop : machine.stack.pop with
  | error cause =>
      obtain ⟨hempty, rfl⟩ := Stack.pop_eq_error hstack hpop
      rw [machine.sourceState_stack_of_empty hstack hempty]
      exact rfl
  | ok popped =>
      obtain ⟨value, stack⟩ := popped
      rw [machine.sourceState_stack_of_pop hpop]
      exact hfinish value stack

theorem Machine.means_pop (hkinds : Opcode.pop.operands = values.map OperandValue.kind)
    (hreads : machine.Reads statements 1 values) (hstack : machine.stack.WellFormed)
    (hnext : machine.Advances statements point 2) :
    machine.Means statements point .pop values := by
  obtain ⟨rfl, -⟩ := hreads.register hkinds point
  exact ⟨_, _, rfl, rfl,
    Machine.related_pop hstack fun value stack => hnext.set { machine with stack } value⟩

theorem Machine.means_peek (hkinds : Opcode.peek.operands = values.map OperandValue.kind)
    (hreads : machine.Reads statements 1 values) (hstack : machine.stack.WellFormed)
    (hnext : machine.Advances statements point 2) :
    machine.Means statements point .peek values := by
  obtain ⟨rfl, -⟩ := hreads.register hkinds point
  refine ⟨_, _, rfl, rfl, ?_⟩
  simp only [Machine.intent]
  rw [machine.stack.peek_map]
  exact Machine.related_pop hstack fun value _ => hnext.set machine value

theorem Machine.means_drop (hkinds : Opcode.drop.operands = values.map OperandValue.kind)
    (hstack : machine.stack.WellFormed) (hnext : machine.Advances statements point 1) :
    machine.Means statements point .drop values := by
  obtain rfl := List.map_eq_nil_iff.mp hkinds.symm
  exact ⟨_, _, rfl, rfl, Machine.related_pop hstack fun _ stack => hnext { machine with stack }⟩

/-- A branch is taken on either side, to the instruction of the label, or on neither. -/
theorem Machine.means_branch {condition : Condition}
    (hkinds : (Opcode.branch condition).operands = values.map OperandValue.kind)
    (hreads : machine.Reads statements 1 values)
    (hnext : machine.Advances statements point 3) :
    machine.Means statements point (.branch condition) values := by
  match values, hkinds with
  | [.label name], _ =>
      obtain ⟨⟨target, htarget, hle, haddress⟩, -⟩ := hreads
      obtain ⟨taken, heffect, htaken⟩ := effectOf?_branch condition
      have hflag : (machine.sourceState point).flag = machine.flag := rfl
      refine ⟨_, _, heffect, Effect.intent?_branch taken htarget, ?_⟩
      simp only [Machine.intent, htaken, hflag]
      split
      next => exact matches_goTo machine point hle haddress
      next => exact hnext machine

/-- The host is asked for a byte on either side. -/
theorem Machine.means_input (hkinds : Opcode.input.operands = values.map OperandValue.kind)
    (hreads : machine.Reads statements 1 values)
    (hnext : machine.Advances statements point 2) :
    machine.Means statements point .input values := by
  obtain ⟨rfl, -⟩ := hreads.register hkinds point
  exact ⟨_, _, rfl, rfl, hnext.set machine⟩

/-- The host is sent the same text on either side. -/
theorem Machine.means_write {channel : Channel} {style : Style}
    (hkinds : (Opcode.write channel style mode).operands = values.map OperandValue.kind)
    (hreads : machine.Reads statements 1 values)
    (hnext : machine.Advances statements point 2) :
    machine.Means statements point (.write channel style mode) values := by
  obtain ⟨s, rfl, hvalue⟩ := hreads.value hkinds point
  obtain ⟨text, heffect, htext⟩ := effectOf?_write channel style mode
  exact ⟨_, _, heffect, Effect.intent?_write channel text hvalue, rfl, (htext _).symm,
    hnext machine⟩

/-- Every opcode means what the machine sets out to do for it. -/
theorem Machine.means_of_reads {opcode : Opcode}
    (hkinds : opcode.operands = values.map OperandValue.kind)
    (hreads : machine.Reads statements 1 values) (hstack : machine.stack.WellFormed)
    (hend : machine.program.size = codeSize (instructionsOf statements))
    (hnext : machine.Advances statements point opcode.size) :
    machine.Means statements point opcode values := by
  cases opcode with
  | nop =>
      obtain rfl := List.map_eq_nil_iff.mp hkinds.symm
      exact ⟨_, _, rfl, rfl, hnext machine⟩
  | halt =>
      obtain rfl := List.map_eq_nil_iff.mp hkinds.symm
      refine ⟨_, _, rfl, rfl, matches_goTo machine point (Nat.le_refl _) ?_⟩
      rw [hend, offsetOf_length]
  | binary op mode => exact means_binary hkinds hreads (by cases mode <;> exact hnext)
  | unary op => exact means_unary hkinds hreads hnext
  | push mode => exact means_push hkinds hreads hstack (by cases mode <;> exact hnext)
  | pop => exact means_pop hkinds hreads hstack hnext
  | peek => exact means_peek hkinds hreads hstack hnext
  | drop => exact means_drop hkinds hstack hnext
  | compare mode => exact means_compare hkinds hreads (by cases mode <;> exact hnext)
  | branch condition => exact means_branch hkinds hreads hnext
  | input => exact means_input hkinds hreads hnext
  | write channel style mode =>
      exact means_write hkinds hreads (by cases mode <;> exact hnext)

end Instructions

section Program

variable {registers : Nat} {statements : List Statement} {code : Array UInt8} {machine : Machine}
  {point : Nat} {instruction : Instruction}

/-- At the point of an instruction the machine decodes that instruction, and sets out to do what it
means. -/
theorem IsProgram.related_intent (hprogram : IsProgram registers statements code)
    (hcarries : machine.Carries registers code)
    (hpc : machine.pc = offsetOf (instructionsOf statements) point)
    (hindex : (instructionsOf statements)[point]? = some instruction) :
    machine.decode = .ok instruction.opcode ∧
      machine.operandByte 0 = instruction.opcode.toByte ∧
      ∃ intent, (machine.sourceState point).intent? statements machine.stack.capacity =
          some intent ∧
        intent.Related (Matches statements) (machine.intent instruction.opcode) := by
  have hmem := List.mem_of_getElem? hindex
  have hlt := (List.getElem?_eq_some_iff.mp hindex).1
  have hprogramOf : machine.program.Valid registers := by
    rw [hcarries.program]
    exact hprogram.valid
  have htable : machine.pc ∈ machine.program.offsets := by
    rw [hcarries.program, hpc]
    exact (hprogram.mem_offsets_iff).mpr ⟨point, hlt, rfl⟩
  have hbyte : machine.operandByte 0 = instruction.opcode.toByte := by
    rw [Machine.operandByte, hcarries.program, hpc]
    exact hprogram.getD_code hindex (show 0 < _ by unfold Opcode.size; omega)
  obtain ⟨opcode, hdecode⟩ := Machine.decode_of_valid hprogramOf hcarries.registers htable
  obtain rfl : opcode = instruction.opcode := by
    have hopcode := (Machine.decode_iff.mp hdecode).2.1
    rw [hbyte, ofByte?_toByte, Option.some.injEq] at hopcode
    exact hopcode.symm
  have hend : machine.program.size = codeSize (instructionsOf statements) := by
    rw [hcarries.program]
    exact hprogram.size
  have hnext : machine.Advances statements point instruction.opcode.size := by
    intro held
    refine matches_goTo held point hlt ?_
    rw [hpc]
    exact (offsetOf_succ hindex).symm
  have hreads : machine.Reads statements 1 (instruction.operands.map Operand.value) := by
    rw [Machine.Reads, hcarries.program, hpc]
    exact (hprogram.operandsAt hindex).mono hcarries.registers
  obtain ⟨effect, intent, heffect, hintent, hrelated⟩ :=
    Machine.means_of_reads (hprogram.kinds hmem) hreads hcarries.stack hend hnext
  refine ⟨hdecode, hbyte, intent, ?_, hrelated⟩
  have hpoint : (machine.sourceState point).point = point := rfl
  simp only [SourceState.intent?, hpoint, hindex, heffect, Option.bind_eq_bind, Option.bind_some]
  exact hintent

end Program

/-! ### Runs -/

/-- What a run reports is what became of the statements. -/
def SourceEnding.Reports (statements : List Statement) (point : Nat) (machine : Machine) :
    SourceEnding → Ending → Prop
  | returned, ending => ending = .returned
  | interrupted interruption, ending => ∃ instruction,
      (instructionsOf statements)[point]? = some instruction ∧
        ending = machine.endingOf instruction.opcode.toByte interruption
  | stuck, _ => False
  | outOfFuel, ending => ending = .outOfFuel

/-- A run comes to what the statements come to: the machine is at the same point and holds the same,
the host is in the same state, and the run reports what became of the statements. -/
structure Corresponds (statements : List Statement) (expected : SourceResult σ)
    (result : RunResult σ) : Prop where
  machine : Matches statements expected.state result.machine
  host : result.host = expected.host
  ending : expected.ending.Reports statements expected.state.point result.machine result.ending

section Runs

variable {registers : Nat} {statements : List Statement} {code : Array UInt8}

/-- The program has ended just if there is no instruction at the point. -/
theorem IsProgram.finished_iff (hprogram : IsProgram registers statements code)
    {machine : Machine} (hcarries : machine.Carries registers code) {state : SourceState}
    (hmatches : Matches statements state machine) :
    machine.finished = true ↔ (instructionsOf statements).length ≤ state.point := by
  have hsize : machine.program.size = codeSize (instructionsOf statements) := by
    rw [hcarries.program]
    exact hprogram.size
  simp only [Machine.finished, hsize, hmatches.pc, decide_eq_true_eq]
  constructor
  · intro hend
    by_contra hnot
    -- an instruction at the point would still have its bytes behind the position
    have hindex := List.getElem?_eq_getElem (Nat.lt_of_not_le hnot)
    have hsucc := offsetOf_succ hindex
    have hle := offsetOf_le (instructionsOf statements) (state.point + 1)
    unfold Opcode.size at hsucc
    omega
  · intro hle
    have hpoint := Nat.le_antisymm hmatches.point hle
    exact Nat.le_of_eq (by rw [hpoint, offsetOf_length])

/-- Running the program of some statements corresponds to running the statements. -/
theorem IsProgram.runSteps_corresponds (hprogram : IsProgram registers statements code)
    (device : Device σ) (count : Nat) {machine : Machine}
    (hcarries : machine.Carries registers code) {state : SourceState}
    (hmatches : Matches statements state machine) (host : σ) :
    Corresponds statements
        (state.runSteps statements machine.stack.capacity device count host)
        (machine.runSteps device count host) ∧
      (machine.runSteps device count host).machine.Carries registers code := by
  -- the invariant is that the machine matches the state and still carries the program
  induction count generalizing machine state host with
  | zero => exact ⟨⟨hmatches, rfl, rfl⟩, hcarries⟩
  | succ count ih =>
      by_cases hend : (instructionsOf statements).length ≤ state.point
      · have hfinished := (hprogram.finished_iff hcarries hmatches).mpr hend
        rw [Machine.runSteps_of_finished hfinished]
        simp only [SourceState.runSteps, hend, ↓reduceIte]
        exact ⟨⟨hmatches, rfl, rfl⟩, hcarries⟩
      · have hrunning : machine.finished = false := by
          rw [← Bool.not_eq_true, hprogram.finished_iff hcarries hmatches]
          exact hend
        have hindex := List.getElem?_eq_getElem (Nat.lt_of_not_le hend)
        obtain ⟨hdecode, hbyte, intent, hintent, hrelated⟩ :=
          hprogram.related_intent hcarries hmatches.pc hindex
        rw [← hmatches.holds] at hintent
        simp only [SourceState.runSteps, hend, ↓reduceIte, hintent]
        rcases intent.perform_related hrelated device host with
          ⟨next, nextMachine, after, hnext, hmachine, hagain⟩ |
            ⟨interruption, after, hnext, hmachine⟩
        · rw [← Machine.attempt_of_decode device hdecode] at hmachine
          rw [Machine.runSteps_of_completed hrunning hmachine, hnext]
          rw [← (Machine.succeeds_of_attempt hmachine).capacity]
          exact ih (hcarries.of_attempt hmachine) hagain after
        · rw [← Machine.attempt_of_decode device hdecode] at hmachine
          rw [Machine.runSteps_of_interrupted hrunning hmachine, hnext]
          refine ⟨⟨hmatches, rfl, _, hindex, ?_⟩, hcarries⟩
          rw [hbyte]

/-- A run with or without a limit corresponds to that of the statements. -/
theorem IsProgram.run_corresponds (hprogram : IsProgram registers statements code)
    {machine : Machine} (hcarries : machine.Carries registers code) {state : SourceState}
    (hmatches : Matches statements state machine) (device : Device σ) (fuel : Nat) (limit : Int)
    (host : σ) :
    Corresponds statements
      (state.run statements machine.stack.capacity device fuel limit host)
      (machine.run device fuel limit host) := by
  by_cases hlimit : 0 < limit
  · rw [Machine.run_of_pos hlimit]
    simp only [SourceState.run, hlimit, ↓reduceIte]
    exact (hprogram.runSteps_corresponds device _ hcarries hmatches host).1
  · rw [Machine.run_of_nonpos hlimit]
    obtain ⟨hcorresponds, hcarried⟩ :=
      hprogram.runSteps_corresponds device fuel hcarries hmatches host
    have hfinished := hprogram.finished_iff hcarried hcorresponds.machine
    simp only [SourceState.run, hlimit, ↓reduceIte]
    generalize state.runSteps statements machine.stack.capacity device fuel host = expected at *
    generalize machine.runSteps device fuel host = result at *
    obtain ⟨hmachine, hhost, hending⟩ := hcorresponds
    obtain ⟨ending, reached, after⟩ := expected
    -- only a run that returned can have stopped for want of fuel, on either side at the same point
    cases ending with
    | returned =>
        have hreturned : result.ending = .returned := hending
        by_cases hend : (instructionsOf statements).length ≤ reached.point
        · have hdone : result.machine.finished = true := hfinished.mpr hend
          simp only [RunResult.orOutOfFuel, hdone, hend, ↓reduceIte, Bool.true_eq_false, and_false]
          exact ⟨hmachine, hhost, hending⟩
        · have hrunning : result.machine.finished = false := by
            rw [← Bool.not_eq_true, hfinished]
            exact hend
          simp only [RunResult.orOutOfFuel, hrunning, hreturned, hend, ↓reduceIte, and_self]
          exact ⟨hmachine, hhost, rfl⟩
    | interrupted interruption =>
        obtain ⟨instruction, hindex, hreported⟩ := hending
        have hnot : result.ending ≠ .returned := by
          rw [hreported]
          exact Machine.endingOf_ne_returned _ _ _
        simp only [RunResult.orOutOfFuel, hnot, false_and, ↓reduceIte]
        exact ⟨hmachine, hhost, instruction, hindex, hreported⟩
    | stuck => cases hending
    | outOfFuel =>
        have hnot : result.ending ≠ .returned := by
          rw [show result.ending = .outOfFuel from hending]
          simp
        simp only [RunResult.orOutOfFuel, hnot, false_and, ↓reduceIte]
        exact ⟨hmachine, hhost, hending⟩

end Runs

/-- A source that is accepted means what its program does. On every machine with the registers that
the source was assembled for, whatever it holds, a run of the program with any limit corresponds to
a run of the statements of the source from the same contents, and the same calls are made to the
host. In particular no instruction of the source is without meaning. -/
theorem assemble_simulates {registers : Int} {assembler : Assembler}
    (hassembler : assembler.Reachable registers) {name : String} {source : Source}
    {cluster : Cluster} (hresult : (assembler.assemble name source).result = .ok cluster)
    {machine : Machine} (hregisters : registers ≤ machine.registers.size)
    (hstack : machine.stack.WellFormed) (device : Device σ) (fuel : Nat) (limit : Int) (host : σ) :
    let statements := source.parse.statements
    let start := machine.load cluster
    let capacity := machine.stack.capacity
    Corresponds statements
        ((start.sourceState 0).run statements capacity device fuel limit host)
        (start.run device fuel limit host) ∧
      (start.run device.recording fuel limit (host, [])).host.2 =
        ((start.sourceState 0).run statements capacity device.recording fuel limit
          (host, [])).host.2 := by
  intro statements start capacity
  obtain ⟨hprogram, hcluster⟩ := Assembler.isProgram_of_assemble hassembler.ready hresult
  have hcarries : start.Carries registers.toNat cluster.code :=
    ⟨hcluster, Int.toNat_le.mpr hregisters, hstack⟩
  have hmatches : Matches statements (start.sourceState 0) start :=
    ⟨rfl, Nat.zero_le _, rfl⟩
  refine ⟨hprogram.run_corresponds hcarries hmatches device fuel limit host, ?_⟩
  have hcalls :=
    hprogram.run_corresponds hcarries hmatches device.recording fuel limit (host, [])
  exact congrArg Prod.snd hcalls.host

/-- The second of two pushes does not fit on the stack, in the statements as in their program. -/
theorem assemble_simulates_pushes :
    let machine : Machine := ⟨.empty, 0, #[0], .new 1, .unset, 0⟩
    let start := machine.load (.ofCode #[28, 7, 28, 8])
    let expected :=
      (start.sourceState 0).run twoPushes.parse.statements 1 Device.keeping 4 0 []
    (expected.ending = .interrupted (.fault (.cause .stackOverflow)) ∧
      expected.state = ⟨1, [0], [7], .unset, 1⟩) ∧
      Corresponds twoPushes.parse.statements expected (start.run Device.keeping 4 0 []) := by
  intro machine start expected
  have hassembler : Assembler.Reachable 1 ⟨1, false, .empty, .empty⟩ := .new rfl
  have hexpected : expected.ending = .interrupted (.fault (.cause .stackOverflow)) ∧
      expected.state = ⟨1, [0], [7], .unset, 1⟩ := by
    decide +kernel
  exact ⟨hexpected, (assemble_simulates hassembler assemble_twoPushes (by decide)
    (Nat.zero_le _) Device.keeping 4 0 []).1⟩

end Octet
