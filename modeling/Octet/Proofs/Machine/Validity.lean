import Octet.Proofs.Machine.Atomicity
import Octet.Proofs.Machine.Position

/-! # Programs that are valid before they run

A program is valid for a number of registers if its table covers it and each operand
in it passes the check that decoding makes. Decoding a valid program never fails, so
the causes that only decoding reports cannot arise while it runs, unless the host
reports them itself.
-/

namespace Octet

/-- The causes that decoding an instruction reports. -/
def staticCauses : List Cause :=
  [.invalidOpcode, .truncatedInstruction, .invalidRegister, .invalidBranchTarget]

/-- A failure is seen to come from decoding an instruction. -/
def Failure.IsStatic (failure : Failure) : Prop :=
  ∃ cause ∈ staticCauses, failure.root = .cause cause

/-- An interruption is seen to come from decoding an instruction. -/
def Interruption.IsStatic : Interruption → Prop
  | fault reason => reason.IsStatic
  | broken failure => failure.IsStatic
  | brokenText _ | outOfRange => False

/-- The host does not report what decoding an instruction reports. -/
structure Device.NeverStatic {σ : Type} (device : Device σ) : Prop where
  read : ∀ host failure,
    ((device.read host).1 = .refused failure ∨ (device.read host).1 = .broken failure) →
      ¬ failure.IsStatic
  write : ∀ channel text host failure,
    ((device.write channel text host).1 = .refused failure ∨
      (device.write channel text host).1 = .broken failure) → ¬ failure.IsStatic

namespace Cluster

/-- An operand of a kind, stored at a position, passes the check that decoding makes. -/
def OperandSound (registers : Nat) (cluster : Cluster) : OperandKind × Nat → Prop
  | (.register, position) => (cluster.code.getD position 0).toNat < registers
  | (.label, position) =>
    cluster.isTarget (addressOfBytes (cluster.code.getD position 0)
      (cluster.code.getD (position + 1) 0)) = true
  | (.immediate, _) => True

/-- A program is valid for a machine with the given number of registers. -/
structure Valid (registers : Nat) (cluster : Cluster) : Prop where
  covered : cluster.Covered
  fits : cluster.size ≤ maxClusterSize
  operands : ∀ offset ∈ cluster.offsets, ∀ opcode,
    Opcode.ofByte? (cluster.code.getD offset 0) = some opcode →
      ∀ operand ∈ operandPositions (offset + 1) opcode.operands,
        cluster.OperandSound registers operand

end Cluster

theorem operandPositions_add (shift start : Nat) (kinds : List OperandKind) :
    operandPositions (shift + start) kinds =
      (operandPositions start kinds).map fun operand => (operand.1, shift + operand.2) := by
  induction kinds generalizing start with
  | nil => rfl
  | cons kind kinds ih => simp [operandPositions, Nat.add_assoc, ih]

namespace Machine

variable {σ : Type}

/-! ### Decoding -/

/-- In a valid program every instruction of the table can be decoded. -/
theorem decode_of_valid {registers : Nat} {machine : Machine}
    (hvalid : machine.program.Valid registers) (hregisters : registers ≤ machine.registers.size)
    (hmem : machine.pc ∈ machine.program.offsets) : ∃ opcode, machine.decode = .ok opcode := by
  obtain ⟨stop, hscans⟩ := machine.program.exists_scans
  obtain ⟨size, hsize, -⟩ := hscans.size_of_mem (Array.mem_toList_iff.mpr hmem)
  obtain ⟨opcode, hopcode, rfl, hfits⟩ := exists_opcode_of_instructionSize? hsize
  refine ⟨opcode, decode_iff.mpr ⟨hfits, hopcode, ?_⟩⟩
  rintro ⟨kind, distance⟩ hoperand
  have hend : machine.pc + (distance + kind.size) ≤ machine.program.code.size := by
    have hbounds : 1 ≤ distance ∧
        distance + kind.size ≤ 1 + OperandKind.totalSize opcode.operands :=
      le_of_mem_operandPositions hoperand
    unfold Opcode.size at hfits
    omega
  have hsound : machine.program.OperandSound registers (kind, machine.pc + distance) := by
    refine hvalid.operands machine.pc hmem opcode hopcode _ ?_
    rw [operandPositions_add]
    exact List.mem_map.mpr ⟨_, hoperand, rfl⟩
  cases kind with
  | register => exact checkOperand_register_iff.mpr ⟨hend, Nat.lt_of_lt_of_le hsound hregisters⟩
  | label => exact checkOperand_label_iff.mpr ⟨hend, hsound⟩
  | immediate => rfl

/-! ### Interruptions -/

theorem isStatic_of_endingOf {machine : Machine} {opcode : UInt8} {interruption : Interruption}
    {failure : Failure} (hending : machine.endingOf opcode interruption = .failed failure)
    (hstatic : failure.IsStatic) : interruption.IsStatic := by
  obtain ⟨cause, hmem, hroot⟩ := hstatic
  cases interruption with
  | fault reason =>
      obtain rfl := Ending.failed.inj hending
      exact ⟨cause, hmem, hroot⟩
  | broken failure =>
      obtain rfl := Ending.failed.inj hending
      exact ⟨cause, hmem, hroot⟩
  | brokenText text => cases hending
  | outOfRange =>
      obtain rfl := Ending.failed.inj hending
      obtain rfl : Cause.outOfRange = cause := Failure.cause.inj hroot
      simp [staticCauses] at hmem

/-- A reply that interrupts with a static fault names that fault. -/
theorem isStatic_of_result {α : Type} {reply : Reply α} {interruption : Interruption}
    (hresult : reply.result = .error interruption) (hstatic : interruption.IsStatic) :
    ∃ failure, failure.IsStatic ∧ (reply = .refused failure ∨ reply = .broken failure) := by
  cases reply with
  | ok value => cases hresult
  | refused failure =>
      obtain rfl := Except.error.inj hresult
      exact ⟨failure, hstatic, .inl rfl⟩
  | broken failure =>
      obtain rfl := Except.error.inj hresult
      exact ⟨failure, hstatic, .inr rfl⟩
  | brokenText text =>
      obtain rfl := Except.error.inj hresult
      cases hstatic

/-- So does the answer to a request for a byte, since the end of the input is no static fault. -/
theorem isStatic_of_inputReply {reply : Reply UInt8} {interruption : Interruption}
    (hresult : (inputReply reply).result = .error interruption)
    (hstatic : interruption.IsStatic) :
    ∃ failure, failure.IsStatic ∧ (reply = .refused failure ∨ reply = .broken failure) := by
  cases reply with
  | refused failure =>
      obtain rfl := Except.error.inj hresult
      refine ⟨failure, ?_, .inl rfl⟩
      split at hstatic
      next =>
        obtain ⟨cause, hmem, hroot⟩ := hstatic
        obtain rfl : Cause.endOfInput = cause := Failure.cause.inj hroot
        simp [staticCauses] at hmem
      next => exact hstatic
  | ok | broken | brokenText => exact isStatic_of_result hresult hstatic

/-- The checks that an instruction makes once it is decoded report other causes. -/
theorem failedCheck_of_decode {machine : Machine} {opcode : Opcode} {reason : Failure}
    (hdecode : machine.decode = .ok opcode) (hcheck : machine.failedCheck = some reason) :
    reason ∈ [.cause .divisionByZero, .cause .stackOverflow, .cause .stackUnderflow] := by
  cases opcode with
  | nop | halt | unary | compare | branch | input | write =>
      simp [failedCheck, hdecode] at hcheck
  | binary | push | pop | peek | drop =>
      simp only [failedCheck, hdecode] at hcheck
      split at hcheck
      next =>
        obtain rfl := Option.some.inj hcheck
        simp
      next => cases hcheck

/-- An instruction that is decoded is not interrupted for a cause of decoding. -/
theorem not_isStatic_of_attempt {device : Device σ} (hdevice : device.NeverStatic)
    {machine : Machine} {opcode : Opcode} {host after : σ} {interruption : Interruption}
    (hstack : machine.stack.WellFormed) (hdecode : machine.decode = .ok opcode)
    (hattempt : machine.attempt device host = (.error interruption, after)) :
    ¬ interruption.IsStatic := by
  intro hstatic
  rw [attempt_of_decode device hdecode] at hattempt
  cases hintent : machine.intent opcode with
  | settle result =>
      rw [hintent] at hattempt
      have hresult := (Prod.mk.inj hattempt).1
      cases result with
      | ok next => cases hresult
      | error cause =>
          obtain ⟨reason, hcheck, hreason⟩ := failedCheck_of_refused hstack hdecode hintent rfl
          have hsame : interruptionOf cause = interruption := Except.error.inj hresult
          rw [← hsame, hreason] at hstatic
          obtain ⟨found, hmem, hroot⟩ := hstatic
          have hcauses := failedCheck_of_decode hdecode hcheck
          simp only [List.mem_cons, List.not_mem_nil, or_false] at hcauses
          rcases hcauses with rfl | rfl | rfl <;>
            · obtain rfl := Failure.cause.inj hroot
              simp [staticCauses] at hmem
  | read resume =>
      rw [hintent] at hattempt
      have hresult := map_eq_error_iff.mp (Prod.mk.inj hattempt).1
      obtain ⟨failure, hfailure, hanswer⟩ := isStatic_of_inputReply hresult hstatic
      exact hdevice.read host failure hanswer hfailure
  | write channel text resume =>
      rw [hintent] at hattempt
      have hresult := map_eq_error_iff.mp (Prod.mk.inj hattempt).1
      obtain ⟨failure, hfailure, hanswer⟩ := isStatic_of_result hresult hstatic
      exact hdevice.write channel text host failure hanswer hfailure

/-! ### Runs -/

/-- A machine that only valid programs are loaded into never reports a cause of decoding. -/
theorem Reachable.not_isStatic {registers capacity : Int} {loads : Cluster → Prop}
    {machine : Machine} (hreachable : Reachable registers capacity loads machine) {required : Nat}
    (hregisters : required ≤ registers.toNat)
    (hvalid : ∀ program, loads program → program.Valid required) {device : Device σ}
    (hdevice : device.NeverStatic) {fuel : Nat} {limit : Int} {host : σ} {failure : Failure}
    (hfailed : (machine.run device fuel limit host).ending = .failed failure) :
    ¬ failure.IsStatic := by
  obtain ⟨count, -, hruns⟩ := exists_runs_of_failed hfailed
  obtain ⟨completed, -, interruption, -, -, hrunning, hattempt, -, hending⟩ :=
    hruns.exists_interrupted (by rw [hfailed]; simp)
  have hbefore := hreachable.runSteps device completed host
  rw [hfailed] at hending
  intro hstatic
  generalize machine.runSteps device completed host = before at *
  -- the machine stands before an instruction of a loaded program, so that it can be decoded
  have hlt := finished_eq_false_iff.mp hrunning
  have hprogram : before.machine.program.Valid required := by
    rcases hbefore.program with hempty | hloads
    · rw [hempty] at hlt
      exact absurd hlt (Nat.not_lt_zero _)
    · exact hvalid _ hloads
  have hmem : before.machine.pc ∈ before.machine.program.offsets := by
    rcases hbefore.onTable with hmem | hend | hstop
    · exact hmem
    · omega
    · have hscans := Cluster.covered_iff.mp hprogram.covered
      have := (hstop.unique hscans).2
      omega
  obtain ⟨opcode, hdecode⟩ :=
    decode_of_valid hprogram (hbefore.hasSizes.registers.symm ▸ hregisters) hmem
  exact not_isStatic_of_attempt hdevice hbefore.hasSizes.stack hdecode hattempt
    (isStatic_of_endingOf hending.symm hstatic)

end Machine

end Octet
