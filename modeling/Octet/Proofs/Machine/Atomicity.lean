import Octet.Proofs.Machine.Calls
import Octet.Proofs.Machine.Reachable

/-! # Interrupted instructions have no effect

A run that fails leaves the machine as it was after the last completed
instruction. Either the instruction after it failed a check that does not involve
the host, and the host was not called, or all checks passed and the failure is the
answer to one call of the host, the last one made.
-/

namespace Octet.Machine

variable {σ : Type}

/-- The check that the instruction at the current position fails: that of its code, its size, its
registers and its branch target, then of its divisor, of the room on the stack, or of a value on
the stack. -/
def failedCheck (machine : Machine) : Option Failure :=
  match machine.decode with
  | .error (.fault reason) => some reason
  | .error _ => none
  | .ok (.binary op mode) =>
    if (op = .div ∨ op = .mod) ∧ machine.operandValue mode 2 = 0 then
      some (.cause .divisionByZero)
    else none
  | .ok (.push _) =>
    if machine.stack.size = machine.stack.capacity then some (.cause .stackOverflow) else none
  | .ok .pop | .ok .peek | .ok .drop =>
    if machine.stack.size = 0 then some (.cause .stackUnderflow) else none
  | .ok _ => none

/-! ### Checks -/

/-- An operand whose bytes are all there passes the check, or is named by the fault. -/
theorem checkOperand_of_le {machine : Machine} {distance : Nat} {kind : OperandKind}
    (hle : machine.pc + (distance + kind.size) ≤ machine.program.size) :
    machine.checkOperand distance kind = .ok () ∨
      ∃ operand inner,
        machine.checkOperand distance kind = .error (.fault (.context operand inner)) := by
  cases kind with
  | immediate => exact .inl rfl
  | register =>
      have hlt : machine.pc + distance < machine.program.size := by
        simp only [OperandKind.size] at hle
        omega
      simp only [checkOperand, byteAt_of_lt hlt, bind, Except.bind]
      split
      next => exact .inl rfl
      next => exact .inr ⟨_, _, rfl⟩
  | label =>
      have hlt : machine.pc + (distance + 1) < machine.program.size := by
        simp only [OperandKind.size] at hle
        omega
      simp only [checkOperand, addressAt_of_lt hlt, bind, Except.bind]
      split
      next => exact .inl rfl
      next => exact .inr ⟨_, _, rfl⟩

/-- Operands that are there pass the check, or the check names one that does not. -/
theorem checkOperands_of_le {machine : Machine} {distance : Nat} {kinds : List OperandKind}
    (hle : machine.pc + (distance + OperandKind.totalSize kinds) ≤ machine.program.size) :
    machine.checkOperands distance kinds = .ok () ∨
      ∃ operand inner,
        machine.checkOperands distance kinds = .error (.fault (.context operand inner)) := by
  induction kinds generalizing distance with
  | nil => exact .inl rfl
  | cons kind kinds ih =>
      simp only [OperandKind.totalSize] at hle
      rcases checkOperand_of_le (show machine.pc + (distance + kind.size) ≤ _ by omega) with
        hfirst | ⟨operand, inner, hfirst⟩
      · simp only [checkOperands, hfirst, bind, Except.bind]
        exact ih (by omega)
      · exact .inr ⟨operand, inner, by simp only [checkOperands, hfirst, bind, Except.bind]⟩

/-- Inside the program, decoding gives an opcode or a fault: it never leaves the program. -/
theorem decode_of_running {machine : Machine} (hrunning : machine.finished = false) :
    (∃ opcode, machine.decode = .ok opcode) ∨
      ∃ reason, machine.decode = .error (.fault reason) := by
  have hlt : machine.pc + 0 < machine.program.size := finished_eq_false_iff.mp hrunning
  simp only [decode, byteAt_of_lt hlt, bind, Except.bind]
  split
  next => exact .inr ⟨_, rfl⟩
  next opcode hopcode =>
    split
    next => exact .inr ⟨_, rfl⟩
    next hfits =>
      unfold Opcode.size at hfits
      rcases checkOperands_of_le
        (show machine.pc + (1 + OperandKind.totalSize opcode.operands) ≤ _ by omega) with
        hcheck | ⟨operand, inner, hcheck⟩
      · exact .inl ⟨opcode, by simp only [hcheck]; rfl⟩
      · exact .inr ⟨.context operand inner, by simp only [hcheck]⟩

/-- A binary operation is refused only by a divisor of zero. -/
theorem apply_eq_error {op : BinaryOp} {left right : UInt8} {cause : Cause}
    (happly : op.apply left right = .error cause) :
    (op = .div ∨ op = .mod) ∧ right = 0 ∧ cause = .divisionByZero := by
  cases op with
  | div | mod =>
      simp only [BinaryOp.apply] at happly
      split at happly
      next hzero => exact ⟨by simp, hzero, (Except.error.inj happly).symm⟩
      next => cases happly
  | mov | add | sub | mul | and | or | xor | shl | shr => cases happly

/-- An instruction that is refused without the host being called has failed a check. -/
theorem failedCheck_of_refused {machine : Machine} {opcode : Opcode} {result : Except Cause Machine}
    {cause : Cause} (hstack : machine.stack.WellFormed) (hdecode : machine.decode = .ok opcode)
    (hintent : machine.intent opcode = .settle result) (hresult : result = .error cause) :
    ∃ reason, machine.failedCheck = some reason ∧ interruptionOf cause = .fault reason := by
  cases opcode with
  | nop | halt | unary | compare | branch =>
      obtain rfl := Intent.settle.inj hintent
      cases hresult
  | input | write => cases hintent
  | binary op mode =>
      obtain rfl := Intent.settle.inj hintent
      obtain ⟨hop, hzero, rfl⟩ := apply_eq_error (map_eq_error_iff.mp hresult)
      exact ⟨_, by simp only [failedCheck, hdecode, hop, hzero, and_self, ↓reduceIte], rfl⟩
  | push mode =>
      obtain rfl := Intent.settle.inj hintent
      obtain ⟨hfull, rfl⟩ := Stack.push_eq_error hstack (map_eq_error_iff.mp hresult)
      exact ⟨_, by simp only [failedCheck, hdecode, hfull, ↓reduceIte], rfl⟩
  | peek =>
      obtain rfl := Intent.settle.inj hintent
      obtain ⟨hempty, rfl⟩ := Stack.peek_eq_error hstack (map_eq_error_iff.mp hresult)
      exact ⟨_, by simp only [failedCheck, hdecode, hempty, ↓reduceIte], rfl⟩
  | pop | drop =>
      obtain rfl := Intent.settle.inj hintent
      obtain ⟨hempty, rfl⟩ := Stack.pop_eq_error hstack (map_eq_error_iff.mp hresult)
      exact ⟨_, by simp only [failedCheck, hdecode, hempty, ↓reduceIte], rfl⟩

/-! ### The interrupted instruction -/

theorem interruption?_of_read {S : Type} {reply : Reply UInt8} {resume : UInt8 → S}
    {interruption : Interruption}
    (hresult : (inputReply reply).result.map resume = .error interruption) :
    (HostCall.read reply).interruption? = some interruption := by
  cases reply with
  | ok value => cases hresult
  | refused | broken | brokenText => exact congrArg some (Except.error.inj hresult)

theorem interruption?_of_write {S : Type} {reply : Reply Unit} {resume : Unit → S}
    {interruption : Interruption} (channel : Channel) (text : List UInt8)
    (hresult : reply.result.map resume = .error interruption) :
    (HostCall.write channel text reply).interruption? = some interruption := by
  cases reply with
  | ok value => cases hresult
  | refused | broken | brokenText => exact congrArg some (Except.error.inj hresult)

/-- An attempt that is interrupted has failed a check and made no call, or has passed all checks and
made one call, whose answer interrupts it. -/
theorem attempt_interrupted {device : Device σ} {machine : Machine} {host : σ}
    {calls : List HostCall} {after : σ × List HostCall} {interruption : Interruption}
    (hstack : machine.stack.WellFormed) (hrunning : machine.finished = false)
    (hattempt : machine.attempt device.recording (host, calls) = (.error interruption, after)) :
    (∃ reason, machine.failedCheck = some reason ∧ interruption = .fault reason ∧
      after = (host, calls)) ∨
    (machine.failedCheck = none ∧
      ∃ call, HostCall.interruption? call = some interruption ∧ after.2 = calls ++ [call]) := by
  rcases decode_of_running hrunning with ⟨opcode, hdecode⟩ | ⟨reason, hdecode⟩
  · rw [attempt_of_decode _ hdecode] at hattempt
    cases hintent : machine.intent opcode with
    | settle result =>
        rw [hintent] at hattempt
        obtain ⟨hresult, rfl⟩ := Prod.mk.inj hattempt
        cases result with
        | ok next => cases hresult
        | error cause =>
            obtain ⟨reason, hcheck, hreason⟩ := failedCheck_of_refused hstack hdecode hintent rfl
            have hsame : interruptionOf cause = interruption := Except.error.inj hresult
            exact .inl ⟨reason, hcheck, hsame ▸ hreason, rfl⟩
    | read resume =>
        obtain rfl : opcode = .input := by
          cases opcode <;> first | rfl | cases hintent
        rw [hintent] at hattempt
        obtain ⟨hresult, rfl⟩ := Prod.mk.inj hattempt
        exact .inr ⟨by simp only [failedCheck, hdecode], .read (device.read host).1,
          interruption?_of_read hresult, rfl⟩
    | write channel text resume =>
        obtain ⟨style, mode, rfl⟩ : ∃ style mode, opcode = .write channel style mode := by
          cases opcode with
          | write found style mode =>
              obtain ⟨rfl, -⟩ := Intent.write.inj hintent
              exact ⟨style, mode, rfl⟩
          | _ => cases hintent
        rw [hintent] at hattempt
        obtain ⟨hresult, rfl⟩ := Prod.mk.inj hattempt
        exact .inr ⟨by simp only [failedCheck, hdecode],
          .write channel text (device.write channel text host).1,
          interruption?_of_write channel text hresult, rfl⟩
  · simp only [attempt, hdecode, Prod.mk.injEq, Except.error.injEq] at hattempt
    exact .inl ⟨reason, by simp only [failedCheck, hdecode], hattempt.1.symm, hattempt.2.symm⟩

/-- A run that does not return has completed some instructions and was interrupted in the next. -/
theorem Runs.exists_interrupted {device : Device σ} {count : Nat} {machine : Machine} {host : σ}
    {result : RunResult σ} (hruns : Runs device count machine host result)
    (hending : result.ending ≠ .returned) :
    ∃ completed < count, ∃ interruption,
      let before := machine.runSteps device completed host
      before.ending = .returned ∧ before.machine.executed = machine.executed + completed ∧
        before.machine.finished = false ∧
        before.machine.attempt device before.host = (.error interruption, result.host) ∧
        result.machine = before.machine ∧
        result.ending =
          before.machine.endingOf (before.machine.operandByte 0) interruption := by
  induction hruns with
  | stopped | finished => exact absurd rfl hending
  | interrupted count hrunning hattempt =>
      exact ⟨0, by omega, _, rfl, rfl, hrunning, hattempt, rfl, rfl⟩
  | completed hrunning hattempt hrest ih =>
      obtain ⟨completed, hlt, interruption, hreturned, hexecuted, hrest⟩ := ih hending
      have hfirst := (succeeds_of_attempt hattempt).executed
      refine ⟨completed + 1, by omega, interruption, ?_⟩
      simp only [runSteps_of_completed hrunning hattempt]
      exact ⟨hreturned, by omega, hrest⟩

/-- A run that fails, with or without a limit, is one of a number of steps. -/
theorem exists_runs_of_failed {device : Device σ} {fuel : Nat} {limit : Int} {machine : Machine}
    {host : σ} {failure : Failure}
    (hfailed : (machine.run device fuel limit host).ending = .failed failure) :
    ∃ count, (0 < limit → count = limit.toNat) ∧
      Runs device count machine host (machine.run device fuel limit host) := by
  by_cases hlimit : 0 < limit
  · rw [run_of_pos hlimit]
    exact ⟨limit.toNat, fun _ => rfl, runs_runSteps device _ machine host⟩
  · rw [run_of_nonpos hlimit] at hfailed ⊢
    refine ⟨fuel, fun hpos => absurd hpos hlimit, ?_⟩
    unfold RunResult.orOutOfFuel at hfailed ⊢
    split at hfailed
    next => cases hfailed
    next hcut =>
      rw [if_neg hcut]
      exact runs_runSteps device fuel machine host

/-- A report names the position and the opcode at which the machine was interrupted. -/
theorem runtime_of_endingOf {machine : Machine} {code opcode : UInt8} {interruption : Interruption}
    {pc : Nat} {reason : Failure}
    (hending : machine.endingOf code interruption = .failed (.runtime pc opcode reason)) :
    pc = machine.pc ∧ opcode = code := by
  cases interruption with
  | fault found =>
      obtain ⟨rfl, rfl, -⟩ := Failure.runtime.inj (Ending.failed.inj hending)
      exact ⟨rfl, rfl⟩
  | broken | brokenText | outOfRange => simp [endingOf] at hending

/-- When a run of a reachable machine fails, there is a number of instructions such that the machine
is just as it is after these have been completed; it is below the limit, if there is one. A fault
names the position of the machine and the byte there. If the next instruction fails a check, the
failure says so, and the host has not been called beyond the completed instructions; otherwise it
has been called once more, and the failure is its answer. -/
theorem run_failed_atomic {registers capacity : Int} {loads : Cluster → Prop} {machine : Machine}
    (hreachable : Reachable registers capacity loads machine) (device : Device σ) (fuel : Nat)
    (limit : Int) (host : σ) {failure : Failure}
    (hfailed : (machine.run device fuel limit host).ending = .failed failure) :
    ∃ completed : Nat,
      let result := machine.run device fuel limit host
      let before := machine.runSteps device completed host
      let calls := (machine.run device.recording fuel limit (host, [])).host.2
      let callsBefore := (machine.runSteps device.recording completed (host, [])).host.2
      (0 < limit → (completed : Int) < limit) ∧
      (before.ending = .returned ∧ before.machine.executed = machine.executed + completed) ∧
      result.machine = before.machine ∧
      (∀ pc opcode reason, failure = .runtime pc opcode reason →
        pc = result.machine.pc ∧ result.machine.program.code[pc]? = some opcode) ∧
      ((∃ reason, before.machine.failedCheck = some reason ∧
          failure = .runtime result.machine.pc (result.machine.operandByte 0) reason ∧
          calls = callsBefore) ∨
        (before.machine.failedCheck = none ∧
          ∃ call interruption, HostCall.interruption? call = some interruption ∧
            result.machine.endingOf (result.machine.operandByte 0) interruption =
              .failed failure ∧
            calls = callsBefore ++ [call])) := by
  -- the run is taken with the calls recorded, of which the run itself is a view
  have hview := run_view device.recording_shows fuel limit machine (host, [])
  have hrecorded : (machine.run device.recording fuel limit (host, [])).ending =
      .failed failure := by
    rw [← hfailed, hview]
    rfl
  obtain ⟨count, hcount, hruns⟩ := exists_runs_of_failed hrecorded
  obtain ⟨completed, hlt, interruption, hreturned, hexecuted, hrunning, hattempt, hmachine,
    hending⟩ := hruns.exists_interrupted (by rw [hrecorded]; simp)
  have hbefore := (runs_runSteps device.recording completed machine (host, [])).runSteps_view
    device.recording_shows
  refine ⟨completed, ?_⟩
  rw [hrecorded] at hending
  have hstack := (runs_runSteps device.recording completed machine (host, [])).wellFormed
    hreachable.hasSizes.stack
  simp only [hview, hbefore, RunResult.view, hmachine]
  generalize machine.runSteps device.recording completed (host, []) = before at *
  refine ⟨?_, ⟨hreturned, hexecuted⟩, trivial, ?_, ?_⟩
  · intro hpos
    have := hcount hpos
    omega
  · rintro pc opcode reason rfl
    have hpc : before.machine.pc < before.machine.program.code.size :=
      finished_eq_false_iff.mp hrunning
    obtain ⟨rfl, rfl⟩ := runtime_of_endingOf hending.symm
    simp [operandByte, hpc]
  · rcases attempt_interrupted hstack hrunning hattempt with
      ⟨reason, hcheck, rfl, hafter⟩ | ⟨hcheck, call, hcall, hafter⟩
    · refine .inl ⟨reason, hcheck, Ending.failed.inj hending, ?_⟩
      rw [hafter]
    · exact .inr ⟨hcheck, call, interruption, hcall, hending.symm, hafter⟩

/-- The second of two pushes does not fit on a stack for one value. -/
theorem run_failed_atomic_of_overflow :
    let machine : Machine := ⟨.ofCode #[28, 7, 28, 8], 0, #[0], .new 1, .unset, 0⟩
    let result := machine.run Device.keeping 4 0 []
    result.ending = .failed (.runtime 2 28 (.cause .stackOverflow)) ∧
      ∃ completed, result.machine = (machine.runSteps Device.keeping completed []).machine ∧
        result.machine.executed = completed := by
  intro machine result
  have hreachable : Reachable 1 1 (fun _ => True) machine := .changed (.new rfl) (.load _ trivial)
  have hending : result.ending = .failed (.runtime 2 28 (.cause .stackOverflow)) := by
    decide +kernel
  obtain ⟨completed, -, ⟨-, hexecuted⟩, hmachine, -⟩ :=
    run_failed_atomic hreachable Device.keeping 4 0 [] hending
  exact ⟨hending, completed, hmachine, by rw [hmachine, hexecuted]; exact Nat.zero_add _⟩

end Octet.Machine
