import Octet.Proofs.Machine.Atomicity
import Octet.Proofs.Machine.Invariant

/-! # Machines keep within their bounds

An instruction looks up bytes of the program, registers and slots of the stack, and is
interrupted in a way of its own if one of them is not there. This never happens to a
machine that a host can come to, whatever bytes it has for a program. What decoding
establishes is enough for each instruction it lets through, and from then on there is
a short list of reasons to refuse one. So a run on hosts that do not break off ends with
a report on an instruction, or returns.
-/

namespace Octet

variable {σ : Type}

namespace Machine

/-- All that the decoded instruction at the current position looks up is there: its bytes, the
registers that it names, the instruction it may branch to, and the slots of the values on the
stack. -/
structure InBounds (machine : Machine) (opcode : Opcode) : Prop where
  code : machine.pc + opcode.size ≤ machine.program.size
  named : Opcode.ofByte? (machine.operandByte 0) = some opcode
  registers : ∀ distance, (OperandKind.register, distance) ∈ operandPositions 1 opcode.operands →
    machine.NamesRegister distance
  targets : ∀ distance, (OperandKind.label, distance) ∈ operandPositions 1 opcode.operands →
    machine.pc + (distance + 1) < machine.program.size ∧
      machine.program.isTarget (machine.operandTarget distance) = true
  stack : machine.stack.size ≤ machine.stack.slots.size

/-- The reasons to refuse a decoded instruction: a divisor of zero, no room on the stack, no value
on the stack, or the refusal of the host that it calls. -/
inductive Refuses (device : Device σ) (machine : Machine) (host : σ) : Opcode → Failure → Prop
  | divisor {op : BinaryOp} {mode : Mode} (hop : op = .div ∨ op = .mod)
      (hzero : machine.operandValue mode 2 = 0) :
      Refuses device machine host (.binary op mode) (.cause .divisionByZero)
  | noRoom {mode : Mode} (hfull : machine.stack.size = machine.stack.capacity) :
      Refuses device machine host (.push mode) (.cause .stackOverflow)
  | noValue {opcode : Opcode} (hopcode : opcode ∈ [.pop, .peek, .drop])
      (hempty : machine.stack.size = 0) :
      Refuses device machine host opcode (.cause .stackUnderflow)
  | noInput {failure : Failure} (hread : (askByte device host).1 = .refused failure) :
      Refuses device machine host .input failure
  | noOutput {channel : Channel} {style : Style} {mode : Mode} {failure : Failure}
      (hwrite : (device.write channel (style.text (machine.operandValue mode 1)) host).1 =
        .refused failure) :
      Refuses device machine host (.write channel style mode) failure

/-- Decoding has seen to it that every access of the instruction is in bounds. -/
theorem inBounds_of_decode {machine : Machine} {opcode : Opcode}
    (hstack : machine.stack.WellFormed) (hdecode : machine.decode = .ok opcode) :
    machine.InBounds opcode := by
  obtain ⟨hfits, hopcode, -⟩ := decode_iff.mp hdecode
  exact ⟨hfits, hopcode, fun _ hmem => namesRegister_of_decode hdecode hmem,
    fun _ hmem => isTarget_of_decode hdecode hmem, hstack⟩

/-! ### Reasons to refuse an instruction -/

section Refusals

variable {device : Device σ} {machine : Machine} {host : σ} {opcode : Opcode}

/-- An instruction whose check fails is refused. -/
theorem refuses_of_failedCheck {reason : Failure} (hdecode : machine.decode = .ok opcode)
    (hcheck : machine.failedCheck = some reason) :
    machine.Refuses device host opcode reason := by
  cases opcode with
  | nop | halt | unary | compare | branch | input | write =>
      simp [failedCheck, hdecode] at hcheck
  | binary op mode =>
      simp only [failedCheck, hdecode] at hcheck
      split at hcheck
      next hzero =>
        obtain rfl := Option.some.inj hcheck
        exact .divisor hzero.1 hzero.2
      next => cases hcheck
  | push mode =>
      simp only [failedCheck, hdecode] at hcheck
      split at hcheck
      next hfull =>
        obtain rfl := Option.some.inj hcheck
        exact .noRoom hfull
      next => cases hcheck
  | pop | peek | drop =>
      simp only [failedCheck, hdecode] at hcheck
      split at hcheck
      next hempty =>
        obtain rfl := Option.some.inj hcheck
        exact .noValue (by simp) hempty
      next => cases hcheck

/-- On a host that returns, an instruction is interrupted only for one of the reasons. -/
theorem refuses_of_perform (hdevice : device.Returns) (hstack : machine.stack.WellFormed)
    (hdecode : machine.decode = .ok opcode) {interruption : Interruption} {after : σ}
    (hperform : (machine.intent opcode).perform device host = (.error interruption, after)) :
    ∃ reason, interruption = .fault reason ∧ machine.Refuses device host opcode reason := by
  cases hintent : machine.intent opcode with
  | settle result =>
      rw [hintent] at hperform
      have hresult : faultOf result = .error interruption := congrArg Prod.fst hperform
      cases result with
      | ok next => cases hresult
      | error cause =>
          obtain ⟨reason, hcheck, hreason⟩ := failedCheck_of_refused hstack hdecode hintent rfl
          rw [faultOf, hreason] at hresult
          exact ⟨reason, (Except.error.inj hresult).symm, refuses_of_failedCheck hdecode hcheck⟩
  | read resume =>
      obtain rfl : opcode = .input := by
        cases opcode <;> first | rfl | cases hintent
      rw [hintent] at hperform
      obtain ⟨failure, hreply, rfl⟩ := (hdevice.askByte host).exists_refused
        (map_eq_error_iff.mp (congrArg Prod.fst hperform))
      exact ⟨failure, rfl, .noInput hreply⟩
  | write channel text resume =>
      cases opcode with
      | write found style mode =>
          obtain ⟨rfl, rfl, -⟩ := Intent.write.inj hintent
          rw [hintent] at hperform
          obtain ⟨failure, hreply, rfl⟩ := (hdevice.write found _ host).exists_refused
            (map_eq_error_iff.mp (congrArg Prod.fst hperform))
          exact ⟨failure, rfl, .noOutput hreply⟩
      | _ => cases hintent

/-- Each of the reasons does interrupt the instruction. -/
theorem Refuses.perform {reason : Failure} (hrefuses : machine.Refuses device host opcode reason) :
    ∃ after, (machine.intent opcode).perform device host = (.error (.fault reason), after) := by
  cases hrefuses with
  | divisor hop hzero =>
      refine ⟨host, ?_⟩
      rcases hop with rfl | rfl <;> simp [intent, BinaryOp.apply, hzero, Intent.perform, Except.map,
        faultOf, interruptionOf]
  | noRoom hfull =>
      refine ⟨host, ?_⟩
      simp [intent, Stack.push_of_full hfull, Intent.perform, Except.map, faultOf, interruptionOf]
  | noValue hopcode hempty =>
      refine ⟨host, ?_⟩
      have hpeek := Stack.peek_of_empty hempty
      simp only [List.mem_cons, List.not_mem_nil, or_false] at hopcode
      rcases hopcode with rfl | rfl | rfl <;>
        simp [intent, Stack.pop, hpeek, Intent.perform, Except.map, faultOf, interruptionOf]
  | noInput hread =>
      refine ⟨(askByte device host).2, ?_⟩
      simp only [intent, Intent.perform, hread]
      rfl
  | @noOutput channel style mode _ hwrite =>
      refine ⟨(device.write channel (style.text (machine.operandValue mode 1)) host).2, ?_⟩
      simp only [intent, Intent.perform, hwrite]
      rfl

/-- A decoded instruction is interrupted exactly for the reasons that are listed. -/
theorem execute_interrupted_iff (hdevice : device.Returns) (hstack : machine.stack.WellFormed)
    (hdecode : machine.decode = .ok opcode) {interruption : Interruption} :
    (∃ after, (execute device opcode).run ⟨machine, host⟩ = .error interruption after) ↔
      ∃ reason, interruption = .fault reason ∧ machine.Refuses device host opcode reason := by
  rw [run_execute device hdecode]
  constructor
  · rintro ⟨after, hrun⟩
    rcases hperform : (machine.intent opcode).perform device host with ⟨found | next, later⟩
    · rw [hperform] at hrun
      obtain ⟨rfl, -⟩ := EStateM.Result.error.inj hrun
      exact refuses_of_perform hdevice hstack hdecode hperform
    · rw [hperform] at hrun
      cases hrun
  · rintro ⟨reason, rfl, hrefuses⟩
    obtain ⟨after, hperform⟩ := hrefuses.perform
    rw [hperform]
    exact ⟨_, rfl⟩

/-- An attempt inside the program is completed or interrupted by a fault. -/
theorem fault_of_attempt (hdevice : device.Returns) (hstack : machine.stack.WellFormed)
    (hrunning : machine.finished = false) {interruption : Interruption} {after : σ}
    (hattempt : machine.attempt device host = (.error interruption, after)) :
    ∃ reason, interruption = .fault reason := by
  rcases decode_of_running hrunning with ⟨opcode, hdecode⟩ | ⟨reason, hdecode⟩
  · rw [attempt_of_decode device hdecode] at hattempt
    obtain ⟨reason, hreason, -⟩ := refuses_of_perform hdevice hstack hdecode hattempt
    exact ⟨reason, hreason⟩
  · simp only [attempt, hdecode, Prod.mk.injEq, Except.error.injEq] at hattempt
    exact ⟨reason, hattempt.1.symm⟩

/-- A division that completes has not divided by zero. -/
theorem divisor_ne_zero {op : BinaryOp} {mode : Mode} {next : Attached σ}
    (hdecode : machine.decode = .ok (.binary op mode)) (hop : op = .div ∨ op = .mod)
    (hrun : (execute device (.binary op mode)).run ⟨machine, host⟩ = .ok () next) :
    machine.operandValue mode 2 ≠ 0 := by
  intro hzero
  obtain ⟨after, hperform⟩ :=
    (Refuses.divisor hop hzero : machine.Refuses device host _ _).perform
  rw [run_execute device hdecode, hperform] at hrun
  cases hrun

end Refusals

/-- What can become of the instruction at the current position on a host that returns. Decoding
faults or gives an opcode, and every opcode has an instruction of its own. The instruction finds all
that it looks up, is refused for one of the reasons only, and divides by no zero. -/
structure Safe (device : Device σ) (machine : Machine) (host : σ) : Prop where
  fault : ∀ interruption after,
    (step device).run ⟨machine, host⟩ = .error interruption after →
      ∃ reason, interruption = .fault reason
  decodes : (∃ opcode, machine.decode = .ok opcode) ∨
    ∃ reason, machine.decode = .error (.fault reason)
  inBounds : ∀ opcode, machine.decode = .ok opcode → machine.InBounds opcode
  refuses : ∀ opcode, machine.decode = .ok opcode → ∀ interruption,
    (∃ after, (execute device opcode).run ⟨machine, host⟩ = .error interruption after) ↔
      ∃ reason, interruption = .fault reason ∧ machine.Refuses device host opcode reason
  divisor : ∀ op mode next, machine.decode = .ok (.binary op mode) → op = .div ∨ op = .mod →
    (execute device (.binary op mode)).run ⟨machine, host⟩ = .ok () next →
      machine.operandValue mode 2 ≠ 0

/-- Inside of the program every machine whose stack is in order is safe. -/
theorem safe_of_wellFormed {device : Device σ} (hdevice : device.Returns) {machine : Machine}
    (hstack : machine.stack.WellFormed) (hrunning : machine.finished = false) (host : σ) :
    machine.Safe device host := by
  refine ⟨?_, decode_of_running hrunning, fun _ hdecode => inBounds_of_decode hstack hdecode,
    fun _ hdecode _ => execute_interrupted_iff hdevice hstack hdecode,
    fun _ _ _ hdecode hop hrun => divisor_ne_zero hdecode hop hrun⟩
  intro interruption after hstep
  rw [run_step] at hstep
  rcases hattempt : machine.attempt device host with ⟨found | next, later⟩
  · rw [hattempt] at hstep
    obtain ⟨rfl, -⟩ := EStateM.Result.error.inj hstep
    exact fault_of_attempt hdevice hstack hrunning hattempt
  · rw [hattempt] at hstep
    cases hstep

/-- A run on a host that returns reports an instruction, unless it returns. -/
theorem Runs.ending {device : Device σ} (hdevice : device.Returns) {count : Nat}
    {machine : Machine} {host : σ} {result : RunResult σ}
    (hruns : Runs device count machine host result) (hstack : machine.stack.WellFormed) :
    result.ending = .returned ∨ ∃ reason, result.ending =
      .failed (.runtime result.machine.pc (result.machine.operandByte 0) reason) := by
  induction hruns with
  | stopped => exact .inl rfl
  | finished => exact .inl rfl
  | interrupted count hrunning hattempt =>
      obtain ⟨reason, rfl⟩ := fault_of_attempt hdevice hstack hrunning hattempt
      exact .inr ⟨reason, rfl⟩
  | completed _ hattempt _ ih => exact ih ((succeeds_of_attempt hattempt).stack hstack)

/-- A machine that a host has made and has done anything to never leaves its bounds, whatever bytes
its program has. A run on a host that returns has nothing to recover from: it returns, or it reports
the instruction that it stopped at. Each instruction on the way, after any number of others, finds
all that it looks up and divides by no zero. -/
theorem run_within_bounds {registers capacity : Int}
    {settings : List (Machine → Except Failure Machine)}
    (hsettings : ∀ setting ∈ settings, IsSetting setting) {start machine : Machine}
    (hnew : Machine.new registers capacity settings = .ok start)
    (hchanges : Relation.ReflTransGen (Changes fun _ => True) start machine)
    {device : Device σ} (hdevice : device.Returns) (fuel : Nat) (limit : Int) (host : σ) :
    let result := machine.run device fuel limit host
    (result.ending = .returned ∨ result.ending = .outOfFuel ∨
      ∃ reason, result.ending =
        .failed (.runtime result.machine.pc (result.machine.operandByte 0) reason)) ∧
    ∀ count : Nat,
      let before := machine.runSteps device count host
      before.machine.finished = false → before.machine.Safe device before.host := by
  intro result
  obtain ⟨-, bare, hbare, happlied⟩ := new_of_settings hnew
  have hmachine : Reachable registers capacity (fun _ => True) machine :=
    ((Reachable.new hbare).trans (changes_of_settings hsettings happlied)).trans hchanges
  have hstack := hmachine.hasSizes.stack
  constructor
  · by_cases hlimit : 0 < limit
    · have hending := (runs_runSteps device limit.toNat machine host).ending hdevice hstack
      rw [← run_of_pos hlimit fuel] at hending
      exact hending.imp_right .inr
    · have hending := (runs_runSteps device fuel machine host).ending hdevice hstack
      have hresult : result = (machine.runSteps device fuel host).orOutOfFuel :=
        run_of_nonpos hlimit fuel machine host
      rw [hresult, RunResult.orOutOfFuel]
      split
      next => exact .inr (.inl rfl)
      next => exact hending.imp_right .inr
  · intro count before hrunning
    exact safe_of_wellFormed hdevice (hmachine.runSteps device count host).hasSizes.stack hrunning
      before.host

/-- The second instruction divides by zero, and the byte behind it starts no instruction. -/
theorem run_within_bounds_of_division :
    let program := Cluster.ofCode #[28, 7, 11, 0, 0, 99]
    let start : Machine := ⟨program, 0, #[5], .new 1, .unset, 0⟩
    let result := start.run Device.keeping 4 0 []
    let before := start.runSteps Device.keeping 1 []
    result.ending = .failed (.runtime 2 11 (.cause .divisionByZero)) ∧
      before.machine.decode = .ok (.binary .div .immediate) ∧
      before.machine.Refuses Device.keeping before.host (.binary .div .immediate)
        (.cause .divisionByZero) := by
  intro program start result before
  have hsettings : ∀ setting ∈ [fun machine : Machine => machine.setRegister 0 5,
      fun machine : Machine => .ok (machine.load program)], IsSetting setting := by
    simp only [List.forall_mem_cons, List.not_mem_nil, false_imp_iff, implies_true, and_true]
    exact ⟨fun bare next hset => .single (.setRegister hset), by
      rintro bare next ⟨rfl⟩
      exact .single (.load bare trivial)⟩
  have hnew : Machine.new 1 1 [fun machine => machine.setRegister 0 5,
      fun machine => .ok (machine.load program)] = .ok start := rfl
  obtain ⟨-, hsafe⟩ :=
    run_within_bounds hsettings hnew .refl Device.keeping_returns 4 0 ([] : List (List UInt8))
  have hdecode : before.machine.decode = .ok (.binary .div .immediate) := by decide +kernel
  have hhere := hsafe 1 (by decide +kernel)
  obtain ⟨reason, hreason, hrefuses⟩ :=
    (hhere.refuses _ hdecode (.fault (.cause .divisionByZero))).mp ⟨_, rfl⟩
  obtain rfl := Interruption.fault.inj hreason
  exact ⟨by decide +kernel, hdecode, hrefuses⟩

end Machine

end Octet
