import Octet.Proofs.Machine.Atomicity

/-! # Larger machines

A machine with more registers, or more room on its stack, that agrees with another
one on what both have runs a program in the same way, as long as the smaller one does
not fail for want of either. The registers that only the larger machine has are
neither read nor written. Machines of one size that differ in the unused slots of
their stacks only are a case of this in which there is nothing to run out of.
-/

namespace Octet

variable {σ : Type}

/-- A failure that names a register that is not there, or a stack that is full. -/
def Failure.WantsRoom (failure : Failure) : Prop :=
  failure.root = .cause .invalidRegister ∨ failure.root = .cause .stackOverflow

/-! ### Stacks -/

namespace Stack

/-- The second stack holds the same values as the first, and has room for `spare` more. -/
structure Extends (spare : Nat) (small large : Stack) : Prop where
  capacity : large.capacity = small.capacity + spare
  values : large.values = small.values
  small : small.WellFormed
  large : large.WellFormed

namespace Extends

variable {spare : Nat} {small large : Stack}

theorem size (hextends : Extends spare small large) : large.size = small.size := by
  rw [← length_values hextends.large, hextends.values, length_values hextends.small]

theorem peek (hextends : Extends spare small large) : large.peek = small.peek := by
  rcases Nat.eq_zero_or_pos small.size with hempty | hpos
  · rw [peek_of_empty hempty, peek_of_empty (hextends.size.trans hempty)]
  · obtain ⟨value, hvalue⟩ := peek_of_pos hextends.small hpos
    obtain ⟨other, hother⟩ := peek_of_pos hextends.large (hextends.size ▸ hpos)
    have hsame := hextends.values
    rw [values_of_peek hvalue, values_of_peek hother] at hsame
    obtain ⟨rfl⟩ := List.append_inj_right' hsame rfl
    rw [hvalue, hother]

/-- Both stacks give the same value or none, and what is left still agrees. -/
theorem pop (hextends : Extends spare small large) :
    (∃ value left other, small.pop = .ok (value, left) ∧ large.pop = .ok (value, other) ∧
      Extends spare left other) ∨
    ∃ cause, small.pop = .error cause ∧ large.pop = .error cause := by
  cases hpeek : small.peek with
  | error cause =>
      have hother := hextends.peek.trans hpeek
      exact .inr ⟨cause, by simp only [Stack.pop, hpeek], by simp only [Stack.pop, hother]⟩
  | ok value =>
      have hsmall := pop_of_peek hpeek
      have hlarge := pop_of_peek (hextends.peek.trans hpeek)
      refine .inl ⟨value, _, _, hsmall, hlarge, hextends.capacity, ?_, .of_pop hsmall,
        .of_pop hlarge⟩
      have hsame := hextends.values
      rw [values_of_pop hsmall, values_of_pop hlarge] at hsame
      exact List.append_cancel_right hsame

/-- A value fits on both stacks, or the smaller one is full, and then so is the larger one unless it
has room to spare. -/
theorem push (hextends : Extends spare small large) (value : UInt8) :
    (∃ next other, small.push value = .ok next ∧ large.push value = .ok other ∧
      Extends spare next other) ∨
    (small.push value = .error .stackOverflow ∧
      (spare = 0 → large.push value = .error .stackOverflow)) := by
  have hsize := hextends.size
  have hcapacity := hextends.capacity
  rcases Nat.lt_or_eq_of_le hextends.small with hlt | hfull
  · obtain ⟨next, hnext⟩ := push_of_lt hlt value
    obtain ⟨other, hother⟩ := push_of_lt (show large.size < large.capacity by omega) value
    refine .inl ⟨next, other, hnext, hother, ?_, ?_, .of_push hnext, .of_push hother⟩
    · rw [capacity_of_push hnext, capacity_of_push hother, hcapacity]
    · rw [values_of_push hnext, values_of_push hother, hextends.values]
  · exact .inr ⟨push_of_full hfull value, fun hspare => push_of_full (by omega) value⟩

end Extends

end Stack

namespace Machine

/-- The second machine has the registers `rest` and room for `spare` values on its stack beyond what
the first one has, and is like it in all that both have. -/
structure Extends (rest : List UInt8) (spare : Nat) (small large : Machine) : Prop where
  program : large.program = small.program
  pc : large.pc = small.pc
  flag : large.flag = small.flag
  executed : large.executed = small.executed
  registers : large.registers.toList = small.registers.toList ++ rest
  stack : small.stack.Extends spare large.stack

namespace Extends

variable {rest : List UInt8} {spare : Nat} {small large : Machine}

/-! ### What both machines have -/

theorem finished (hextends : Extends rest spare small large) : large.finished = small.finished := by
  rw [Machine.finished, hextends.program, hextends.pc, Machine.finished]

theorem byteAt (hextends : Extends rest spare small large) (distance : Nat) :
    large.byteAt distance = small.byteAt distance := by
  rw [Machine.byteAt, hextends.program, hextends.pc, Machine.byteAt]

theorem operandByte (hextends : Extends rest spare small large) (distance : Nat) :
    large.operandByte distance = small.operandByte distance := by
  rw [Machine.operandByte, hextends.program, hextends.pc, Machine.operandByte]

theorem operandTarget (hextends : Extends rest spare small large) (distance : Nat) :
    large.operandTarget distance = small.operandTarget distance := by
  rw [Machine.operandTarget, hextends.operandByte, hextends.operandByte, Machine.operandTarget]

/-- A register that the smaller machine has holds the same in both. -/
theorem operandRegister (hextends : Extends rest spare small large) {distance : Nat}
    (hnames : small.NamesRegister distance) :
    large.operandRegister distance = small.operandRegister distance := by
  have hindex : (small.operandByte distance).toNat < small.registers.toList.length := hnames.2
  rw [Machine.operandRegister, hextends.operandByte, Machine.operandRegister,
    Array.getD_eq_getD_getElem?, Array.getD_eq_getD_getElem?, ← Array.getElem?_toList,
    ← Array.getElem?_toList, hextends.registers, List.getElem?_append_left hindex]

/-- An operand that the smaller machine can decode gives the same value in both. -/
theorem operandValue (hextends : Extends rest spare small large) {opcode : Opcode}
    (hdecode : small.decode = .ok opcode) {mode : Mode} {distance : Nat}
    (hmem : (mode.kind, distance) ∈ operandPositions 1 opcode.operands) :
    large.operandValue mode distance = small.operandValue mode distance := by
  cases mode with
  | immediate => exact hextends.operandByte distance
  | register => exact hextends.operandRegister (namesRegister_of_decode hdecode hmem)

/-- Both machines still agree after an instruction that ends at the same position. -/
theorem complete (hextends : Extends rest spare small large) {pc other : Nat} (hpc : other = pc) :
    Extends rest spare (small.complete pc) (large.complete other) :=
  { hextends with pc := hpc, executed := congrArg (· + 1) hextends.executed }

theorem advance (hextends : Extends rest spare small large) (size : Nat) :
    Extends rest spare (small.complete (small.pc + size)) (large.complete (large.pc + size)) :=
  hextends.complete (congrArg (· + size) hextends.pc)

theorem withStack (hextends : Extends rest spare small large) {stack other : Stack}
    (hstack : stack.Extends spare other) :
    Extends rest spare { small with stack } { large with stack := other } :=
  { hextends with stack := hstack }

theorem withFlag (hextends : Extends rest spare small large) (flag : Flag) :
    Extends rest spare { small with flag } { large with flag } :=
  { hextends with flag := rfl }

/-- Setting a register of the smaller machine sets it in both, and none of those beyond. -/
theorem withRegister (hextends : Extends rest spare small large) {distance : Nat}
    (hnames : small.NamesRegister distance) (value : UInt8) :
    Extends rest spare (small.withRegister distance value)
      (large.withRegister distance value) := by
  refine { hextends with registers := ?_ }
  have hindex : (small.operandByte distance).toNat < small.registers.toList.length := hnames.2
  simp only [Machine.withRegister, Array.toList_setIfInBounds, hextends.operandByte,
    hextends.registers]
  exact List.set_append_left _ _ hindex

/-! ### One instruction -/

/-- Both machines let an operand pass or object to it in the same way, unless it names a register
that only the larger one may have. -/
theorem checkOperand (hextends : Extends rest spare small large) (distance : Nat)
    (kind : OperandKind) :
    large.checkOperand distance kind = small.checkOperand distance kind ∨
      rest ≠ [] ∧ ∃ operand, small.checkOperand distance kind =
        .error (.fault (.context operand (.cause .invalidRegister))) := by
  cases kind with
  | immediate => exact .inl rfl
  | label =>
      refine .inl ?_
      simp only [Machine.checkOperand, addressAt, hextends.byteAt, hextends.program]
  | register =>
      have hsize : large.registers.size = small.registers.size + rest.length := by
        simpa using congrArg List.length hextends.registers
      simp only [Machine.checkOperand, hextends.byteAt]
      cases small.byteAt distance with
      | error interruption => exact .inl rfl
      | ok index =>
          simp only [bind, Except.bind]
          by_cases hthere : index.toNat < small.registers.size
          · exact .inl (by rw [if_pos hthere, if_pos (by omega)])
          · rw [if_neg hthere]
            by_cases hrest : rest = []
            · rw [hrest, List.length_nil] at hsize
              exact .inl (if_neg (by omega))
            · exact .inr ⟨hrest, _, rfl⟩

/-- Any number of operands passes in both machines, or fails for the first register that is not
there. -/
theorem checkOperands (hextends : Extends rest spare small large) (distance : Nat)
    (kinds : List OperandKind) :
    large.checkOperands distance kinds = small.checkOperands distance kinds ∨
      rest ≠ [] ∧ ∃ operand, small.checkOperands distance kinds =
        .error (.fault (.context operand (.cause .invalidRegister))) := by
  induction kinds generalizing distance with
  | nil => exact .inl rfl
  | cons kind kinds ih =>
      simp only [Machine.checkOperands]
      rcases hextends.checkOperand distance kind with hsame | ⟨hrest, operand, hfails⟩
      · rw [hsame]
        cases small.checkOperand distance kind with
        | error interruption => exact .inl rfl
        | ok passed => exact ih (distance + kind.size)
      · rw [hfails]
        exact .inr ⟨hrest, operand, rfl⟩

/-- Both machines decode the same instruction, or the smaller one lacks a register that it names. -/
theorem decode (hextends : Extends rest spare small large) :
    large.decode = small.decode ∨
      rest ≠ [] ∧ ∃ operand,
        small.decode = .error (.fault (.context operand (.cause .invalidRegister))) := by
  simp only [Machine.decode, hextends.byteAt, hextends.program, hextends.pc]
  cases small.byteAt 0 with
  | error interruption => exact .inl rfl
  | ok byte =>
      simp only [bind, Except.bind]
      split
      next => exact .inl rfl
      next opcode _ =>
        split
        next => exact .inl rfl
        next =>
          rcases hextends.checkOperands 1 opcode.operands with hsame | ⟨hrest, operand, hfails⟩
          · exact .inl (by rw [hsame])
          · exact .inr ⟨hrest, operand, by rw [hfails]⟩

/-- The one operand of an instruction gives the same value. -/
theorem onlyOperand (hextends : Extends rest spare small large) {opcode : Opcode}
    (hdecode : small.decode = .ok opcode) {mode : Mode}
    (hoperands : opcode.operands = [mode.kind]) :
    large.operandValue mode 1 = small.operandValue mode 1 :=
  hextends.operandValue hdecode (by simp [hoperands, operandPositions])

/-- Both operands of an instruction give the same values. -/
theorem bothOperands (hextends : Extends rest spare small large) {opcode : Opcode}
    (hdecode : small.decode = .ok opcode) {mode : Mode}
    (hoperands : opcode.operands = [.register, mode.kind]) :
    large.operandRegister 1 = small.operandRegister 1 ∧
      large.operandValue mode 2 = small.operandValue mode 2 :=
  ⟨hextends.operandRegister (namesRegister_first hdecode hoperands),
    hextends.operandValue hdecode (by simp [hoperands, operandPositions, OperandKind.size])⟩

/-- An instruction that takes a value from the stack does the same in both machines. -/
theorem related_pop (hextends : Extends rest spare small large)
    {finish other : UInt8 × Stack → Machine}
    (hfinish : ∀ value stack larger, stack.Extends spare larger →
      Extends rest spare (finish (value, stack)) (other (value, larger))) :
    (Intent.settle (small.stack.pop.map finish)).Related (Extends rest spare)
      (.settle (large.stack.pop.map other)) := by
  rcases hextends.stack.pop with ⟨value, stack, larger, hstack, hlarger, hsame⟩ |
    ⟨cause, hstack, hlarger⟩
  · rw [hstack, hlarger]
    exact hfinish value stack larger hsame
  · rw [hstack, hlarger]
    exact rfl

/-- Pushing is the one intent that the sizes of the machines bear on. -/
theorem intent_push (hextends : Extends rest spare small large) {mode : Mode}
    (hdecode : small.decode = .ok (.push mode)) :
    (small.intent (.push mode)).Related (Extends rest spare) (large.intent (.push mode)) ∨
      spare ≠ 0 ∧ small.intent (.push mode) = .settle (.error .stackOverflow) := by
  simp only [Machine.intent, hextends.onlyOperand hdecode rfl]
  rcases hextends.stack.push (small.operandValue mode 1) with
    ⟨stack, other, hstack, hother, hsame⟩ | ⟨hfull, hlarge⟩
  · rw [hstack, hother]
    exact .inl ((hextends.withStack hsame).advance 2)
  · rw [hfull]
    by_cases hspare : spare = 0
    · rw [hlarge hspare]
      exact .inl rfl
    · exact .inr ⟨hspare, rfl⟩

/-- Both machines set out to do the same, or the smaller one has no room for a value to push. -/
theorem intent (hextends : Extends rest spare small large) {opcode : Opcode}
    (hdecode : small.decode = .ok opcode) :
    (small.intent opcode).Related (Extends rest spare) (large.intent opcode) ∨
      spare ≠ 0 ∧ small.intent opcode = .settle (.error .stackOverflow) := by
  cases opcode with
  | push mode => exact hextends.intent_push hdecode
  | nop => exact .inl (hextends.advance 1)
  | halt => exact .inl (hextends.complete (congrArg Cluster.size hextends.program))
  | binary op mode =>
      have hfirst := namesRegister_first hdecode rfl
      obtain ⟨hleft, hright⟩ := hextends.bothOperands hdecode rfl
      refine .inl ?_
      simp only [Machine.intent, hleft, hright]
      exact Intent.related_settle_map _ fun value => (hextends.withRegister hfirst value).advance 3
  | unary op =>
      have hfirst := namesRegister_first hdecode rfl
      refine .inl ?_
      simp only [Machine.intent, hextends.operandRegister hfirst]
      exact (hextends.withRegister hfirst _).advance 2
  | pop =>
      have hfirst := namesRegister_first hdecode rfl
      refine .inl (hextends.related_pop fun value stack _ hsame => ?_)
      have hnames : { small with stack }.NamesRegister 1 := hfirst
      exact ((hextends.withStack hsame).withRegister hnames value).advance 2
  | peek =>
      have hfirst := namesRegister_first hdecode rfl
      refine .inl ?_
      simp only [Machine.intent, hextends.stack.peek]
      exact Intent.related_settle_map _ fun value => (hextends.withRegister hfirst value).advance 2
  | drop =>
      exact .inl (hextends.related_pop fun _ _ _ hsame => (hextends.withStack hsame).advance 1)
  | compare mode =>
      obtain ⟨hleft, hright⟩ := hextends.bothOperands hdecode rfl
      refine .inl ?_
      simp only [Machine.intent, hleft, hright]
      exact (hextends.withFlag _).advance 3
  | branch condition =>
      refine .inl (hextends.complete ?_)
      rw [hextends.flag, hextends.operandTarget, hextends.pc]
  | input =>
      have hfirst := namesRegister_first hdecode rfl
      exact .inl fun value => (hextends.withRegister hfirst value).advance 2
  | write channel style mode =>
      refine .inl ?_
      simp only [Machine.intent, hextends.onlyOperand hdecode rfl]
      exact ⟨rfl, rfl, hextends.advance 2⟩

/-- Both machines complete an instruction and still agree, or both are interrupted in the same way,
or the smaller one wants room; machines of one size never differ in that. -/
theorem attempt (hextends : Extends rest spare small large) (device : Device σ) (host : σ) :
    (∃ next other after, small.attempt device host = (.ok next, after) ∧
      large.attempt device host = (.ok other, after) ∧ Extends rest spare next other) ∨
    (∃ interruption after, small.attempt device host = (.error interruption, after) ∧
      large.attempt device host = (.error interruption, after)) ∨
    (¬ (rest = [] ∧ spare = 0) ∧ ∃ reason,
      small.attempt device host = (.error (.fault reason), host) ∧ reason.WantsRoom) := by
  rcases hextends.decode with hsame | ⟨hrest, operand, hfails⟩
  · cases hdecode : small.decode with
    | error interruption =>
        refine .inr (.inl ⟨interruption, host, ?_, ?_⟩)
        · simp only [Machine.attempt, hdecode]
        · simp only [Machine.attempt, hsame, hdecode]
    | ok opcode =>
        rw [attempt_of_decode device hdecode, attempt_of_decode device (hsame.trans hdecode)]
        rcases hextends.intent hdecode with hrelated | ⟨hspare, hfull⟩
        · rcases Intent.perform_related hrelated device host with hcompleted | hinterrupted
          · exact .inl hcompleted
          · exact .inr (.inl hinterrupted)
        · refine .inr (.inr ⟨fun hboth => hspare hboth.2, .cause .stackOverflow, ?_, .inr rfl⟩)
          rw [hfull]
          rfl
  · refine .inr (.inr ⟨fun hboth => hrest hboth.1, .context operand (.cause .invalidRegister), ?_,
      .inl rfl⟩)
    simp only [Machine.attempt, hfails]

end Extends

end Machine

/-! ### Reports -/

/-- An interruption that is reported without the size of the stack. -/
def Interruption.Plain : Interruption → Prop
  | fault _ | brokenText _ => True
  | broken _ | outOfRange => False

/-- The hosts of the device never break off with a failure. -/
structure Device.NeverBreaks (device : Device σ) : Prop where
  read : ∀ host failure, (device.read host).1 ≠ .broken failure
  write : ∀ channel text host failure, (device.write channel text host).1 ≠ .broken failure

theorem Device.NeverBreaks.recording {device : Device σ} (hdevice : device.NeverBreaks) :
    device.recording.NeverBreaks :=
  ⟨fun host => hdevice.read host.1, fun channel text host => hdevice.write channel text host.1⟩

/-- A reply that does not break off is reported without the size of the stack. -/
theorem Reply.plain_of_result {α : Type} {reply : Reply α} {interruption : Interruption}
    (hreply : ∀ failure, reply ≠ .broken failure) (hresult : reply.result = .error interruption) :
    interruption.Plain := by
  cases reply with
  | ok value => cases hresult
  | refused failure | brokenText text =>
      obtain rfl := Except.error.inj hresult
      trivial
  | broken failure => exact absurd rfl (hreply failure)

namespace Machine

/-- An attempt inside the program never leaves the machine, so only a host that breaks off can make
it end in any other way. -/
theorem plain_of_attempt {device : Device σ} (hdevice : device.NeverBreaks) {machine : Machine}
    (hstack : machine.stack.WellFormed) (hrunning : machine.finished = false) {host after : σ}
    {interruption : Interruption}
    (hattempt : machine.attempt device host = (.error interruption, after)) :
    interruption.Plain := by
  rcases decode_of_running hrunning with ⟨opcode, hdecode⟩ | ⟨reason, hdecode⟩
  · rw [attempt_of_decode device hdecode] at hattempt
    cases hintent : machine.intent opcode with
    | settle result =>
        rw [hintent] at hattempt
        have hresult : faultOf result = .error interruption := congrArg Prod.fst hattempt
        cases result with
        | ok next => cases hresult
        | error cause =>
            obtain ⟨reason, -, hreason⟩ := failedCheck_of_refused hstack hdecode hintent rfl
            rw [faultOf, hreason] at hresult
            obtain rfl := Except.error.inj hresult
            trivial
    | read resume =>
        rw [hintent] at hattempt
        have hasked : ∀ failure, (askByte device host).1 ≠ .broken failure := by
          simp only [askByte]
          cases hreply : (device.read host).1 with
          | broken failure => exact absurd hreply (hdevice.read host failure)
          | ok | refused | brokenText => simp [inputReply]
        exact Reply.plain_of_result hasked
          (map_eq_error_iff.mp (congrArg Prod.fst hattempt))
    | write channel text resume =>
        rw [hintent] at hattempt
        exact Reply.plain_of_result (hdevice.write channel text host)
          (map_eq_error_iff.mp (congrArg Prod.fst hattempt))
  · simp only [attempt, hdecode, Prod.mk.injEq, Except.error.injEq] at hattempt
    obtain ⟨rfl, -⟩ := hattempt
    trivial

/-- Both machines report an interruption in the same way, if the report does not name the size of
the stack or the sizes are the same. -/
theorem Extends.endingOf {rest : List UInt8} {spare : Nat} {small large : Machine}
    (hextends : Extends rest spare small large) {interruption : Interruption}
    (hreports : spare = 0 ∨ interruption.Plain) (opcode : UInt8) :
    large.endingOf opcode interruption = small.endingOf opcode interruption := by
  rcases hreports with rfl | hplain
  · -- the report names the capacity of the stack
    have hcapacity : large.stack.capacity = small.stack.capacity := hextends.stack.capacity
    have htext : large.recoveryText = small.recoveryText := by
      unfold recoveryText
      rw [hextends.pc, hextends.program, hextends.stack.size, hcapacity]
    simp only [Machine.endingOf, htext, hextends.pc]
  · cases interruption with
    | fault reason => simp only [Machine.endingOf, hextends.pc]
    | brokenText text => rfl
    | broken | outOfRange => cases hplain

end Machine

/-! ### Runs -/

/-- Two runs came to the same, on machines of which one is larger. -/
structure RunResult.Extends (rest : List UInt8) (spare : Nat) (result other : RunResult σ) :
    Prop where
  ending : other.ending = result.ending
  host : other.host = result.host
  machine : result.machine.Extends rest spare other.machine

/-- Both runs have come to their end, or neither has. -/
theorem RunResult.Extends.orOutOfFuel {rest : List UInt8} {spare : Nat} {result other : RunResult σ}
    (hextends : result.Extends rest spare other) :
    result.orOutOfFuel.Extends rest spare other.orOutOfFuel := by
  unfold RunResult.orOutOfFuel
  rw [hextends.ending, hextends.machine.finished]
  split
  next => exact ⟨rfl, hextends.host, hextends.machine⟩
  next => exact hextends

namespace Machine

variable {rest : List UInt8} {spare : Nat} {small large : Machine}

/-- A run that comes to its result comes to the same on a larger machine, unless it wants room. -/
theorem Runs.extends {device : Device σ} {count : Nat} {host : σ} {result : RunResult σ}
    (hruns : Runs device count small host result) (hextends : Extends rest spare small large)
    (hreports : spare = 0 ∨ device.NeverBreaks) :
    result.Extends rest spare (large.runSteps device count host) ∨
      (¬ (rest = [] ∧ spare = 0) ∧
        ∃ failure, result.ending = .failed failure ∧ failure.WantsRoom) := by
  -- the larger machine follows the smaller one step by step and agrees with it before each of them
  induction hruns generalizing large with
  | stopped small host => exact .inl ⟨rfl, rfl, hextends⟩
  | finished count host hfinished =>
      rw [runSteps_of_finished (hextends.finished.trans hfinished)]
      exact .inl ⟨rfl, rfl, hextends⟩
  | @interrupted small host after interruption count hrunning hattempt =>
      have hlarge := hextends.finished.trans hrunning
      rcases hextends.attempt device host with ⟨next, other, _, hnext, -⟩ |
        ⟨_, _, hsmall, hother⟩ | ⟨hsizes, reason, hsmall, hwants⟩
      · rw [hattempt] at hnext
        cases hnext
      · rw [hattempt] at hsmall
        obtain ⟨rfl, rfl⟩ : interruption = _ ∧ after = _ := by simpa using hsmall
        rw [runSteps_of_interrupted hlarge hother]
        refine .inl ⟨?_, rfl, hextends⟩
        dsimp only
        rw [hextends.operandByte]
        apply hextends.endingOf
        exact hreports.imp_right
          fun hdevice => plain_of_attempt hdevice hextends.stack.small hrunning hattempt
      · rw [hattempt] at hsmall
        obtain ⟨rfl, -⟩ : interruption = _ ∧ after = _ := by simpa using hsmall
        exact .inr ⟨hsizes, _, rfl, hwants⟩
  | @completed small next host after count result hrunning hattempt hrest ih =>
      have hlarge := hextends.finished.trans hrunning
      rcases hextends.attempt device host with ⟨_, other, _, hnext, hother, hagain⟩ |
        ⟨_, _, hsmall, -⟩ | ⟨-, _, hsmall, -⟩
      · rw [hattempt] at hnext
        obtain ⟨rfl, rfl⟩ : next = _ ∧ after = _ := by simpa using hnext
        rw [runSteps_of_completed hlarge hother]
        exact ih hagain
      · rw [hattempt] at hsmall
        cases hsmall
      · rw [hattempt] at hsmall
        cases hsmall

/-- A run with any limit comes to the same on both machines, unless the smaller one wants room. -/
theorem Extends.run (hextends : Extends rest spare small large) {device : Device σ}
    (hreports : spare = 0 ∨ device.NeverBreaks) (fuel : Nat) (limit : Int) (host : σ) :
    (small.run device fuel limit host).Extends rest spare (large.run device fuel limit host) ∨
      (¬ (rest = [] ∧ spare = 0) ∧ ∃ failure,
        (small.run device fuel limit host).ending = .failed failure ∧ failure.WantsRoom) := by
  by_cases hlimit : 0 < limit
  · rw [run_of_pos hlimit, run_of_pos hlimit]
    exact (runs_runSteps device _ small host).extends hextends hreports
  · rw [run_of_nonpos hlimit, run_of_nonpos hlimit]
    rcases (runs_runSteps device fuel small host).extends hextends hreports with
      hsame | ⟨hsizes, failure, hfailed, hwants⟩
    · exact .inl hsame.orOutOfFuel
    · refine .inr ⟨hsizes, failure, ?_, hwants⟩
      unfold RunResult.orOutOfFuel
      rw [if_neg (fun hcut => by rw [hfailed] at hcut; cases hcut.1)]
      exact hfailed

/-- A larger machine runs a program in the same way. Unless the run of the smaller machine fails for
want of a register or of room on its stack, the run of the larger one ends in the same way and with
the same calls to the host, and the machines still agree in all that both have. The registers that
only the larger one has are as they were. -/
theorem run_of_larger (hextends : Extends rest spare small large) {device : Device σ}
    (hdevice : device.NeverBreaks) (fuel : Nat) (limit : Int) (host : σ)
    (hroom : ∀ failure, (small.run device fuel limit host).ending = .failed failure →
      ¬ failure.WantsRoom) :
    let result := small.run device fuel limit host
    let other := large.run device fuel limit host
    other.ending = result.ending ∧ other.host = result.host ∧
      (large.run device.recording fuel limit (host, [])).host.2 =
        (small.run device.recording fuel limit (host, [])).host.2 ∧
      result.machine.registers.size = small.registers.size ∧
      Extends rest spare result.machine other.machine := by
  intro result other
  have hview := run_view device.recording_shows fuel limit small (host, [])
  have hsame : result.Extends rest spare other := by
    rcases hextends.run (.inr hdevice) fuel limit host with hsame | ⟨-, failure, hfailed, hwants⟩
    · exact hsame
    · exact absurd hwants (hroom failure hfailed)
  refine ⟨hsame.ending, hsame.host, ?_, ?_, hsame.machine⟩
  · rcases hextends.run (.inr hdevice.recording) fuel limit (host, []) with
      hcalls | ⟨-, failure, hfailed, hwants⟩
    · exact congrArg Prod.snd hcalls.host
    · refine absurd hwants (hroom failure ?_)
      rw [← hfailed, hview]
      rfl
  · obtain ⟨count, hcount⟩ := exists_runSteps_of_run device fuel limit small host
    rw [hcount]
    exact (runs_runSteps device count small host).registers

/-- A program that pushes a value, pops it, writes it and increments it, on a machine that it just
fits and on a larger one. -/
theorem run_of_larger_of_echo :
    let code : Cluster := .ofCode #[28, 7, 29, 0, 42, 0, 25, 0]
    let small : Machine := ⟨code, 0, #[0], .new 1, .unset, 0⟩
    let large : Machine := ⟨code, 0, #[0, 9], .new 3, .unset, 0⟩
    let result := small.run Device.keeping 5 0 []
    let other := large.run Device.keeping 5 0 []
    (result.ending = .returned ∧ result.host = [[55]] ∧ result.machine.registers = #[8]) ∧
      other.ending = .returned ∧ other.host = [[55]] ∧ other.machine.registers = #[8, 9] := by
  intro code small large result other
  have hextends : Extends [9] 2 small large :=
    ⟨rfl, rfl, rfl, rfl, rfl, rfl, rfl, Nat.zero_le _, Nat.zero_le _⟩
  have hdevice : Device.keeping.NeverBreaks :=
    ⟨fun _ _ => by simp [Device.keeping], fun _ _ _ _ => by simp [Device.keeping]⟩
  have hresult : result.ending = .returned ∧ result.host = [[55]] ∧
      result.machine.registers = #[8] := by decide +kernel
  obtain ⟨hending, hhost, hregisters⟩ := hresult
  have hroom : ∀ failure, result.ending = .failed failure → ¬ failure.WantsRoom := by
    intro failure hfailed
    rw [hending] at hfailed
    cases hfailed
  obtain ⟨hended, hkept, -, -, hagain⟩ : other.ending = result.ending ∧
      other.host = result.host ∧ _ ∧ _ ∧ Extends [9] 2 result.machine other.machine :=
    run_of_larger hextends hdevice 5 0 [] hroom
  rw [hended, hkept]
  refine ⟨⟨hending, hhost, hregisters⟩, hending, hhost, ?_⟩
  apply Array.toList_inj.mp
  rw [hagain.registers, hregisters]
  rfl

end Machine

end Octet
