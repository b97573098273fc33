import Octet.Machine.Run
import Octet.Proofs.Machine.Instruction
import Octet.Proofs.Machine.Stack

/-! # Runs as repeated attempts

What a completed instruction keeps, and how a run goes on after it. Two runs one
after the other are one run, and a run that returns has either ended the program
or executed all the instructions it was asked for.
-/

namespace Octet

namespace Intent

variable {σ S : Type}

/-- The states that an intent can lead to, whatever the host answers. -/
def LeadsTo : Intent S → S → Prop
  | settle result, next => result = .ok next
  | read resume, next => ∃ value, next = resume value
  | write _ _ resume, next => next = resume

theorem leadsTo_of_perform {device : Device σ} {host after : σ} {intent : Intent S} {next : S}
    (hperform : intent.perform device host = (.ok next, after)) : intent.LeadsTo next := by
  cases intent with
  | settle result =>
      cases result with
      | error cause => simp [perform, Machine.faultOf] at hperform
      | ok state =>
          simp only [perform, Machine.faultOf, Prod.mk.injEq, Except.ok.injEq] at hperform
          exact congrArg Except.ok hperform.1
  | read resume =>
      obtain ⟨value, -, hnext⟩ := map_eq_ok_iff.mp (Prod.mk.inj hperform).1
      exact ⟨value, hnext.symm⟩
  | write channel text resume =>
      obtain ⟨_, -, hnext⟩ := map_eq_ok_iff.mp (Prod.mk.inj hperform).1
      exact hnext.symm

/-- Two intents do the same, as far as related states are the same. -/
def Related {T : Type} (related : S → T → Prop) : Intent S → Intent T → Prop
  | settle (.ok state), settle (.ok other) => related state other
  | settle (.error cause), settle (.error other) => cause = other
  | read resume, read other => ∀ value, related (resume value) (other value)
  | write channel text resume, write otherChannel otherText other =>
    channel = otherChannel ∧ text = otherText ∧ related resume other
  | _, _ => False

/-- The same result, carried on to related states on either side, settles related intents. -/
theorem related_settle_map {T α : Type} {related : S → T → Prop} {finish : α → S} {other : α → T}
    (result : Except Cause α) (hfinish : ∀ value, related (finish value) (other value)) :
    (settle (result.map finish)).Related related (settle (result.map other)) := by
  cases result with
  | error cause => exact rfl
  | ok value => exact hfinish value

/-- Related intents make the same call, and come to related states or to the same interruption. -/
theorem perform_related {T : Type} {related : S → T → Prop} {intent : Intent S}
    {other : Intent T} (hrelated : intent.Related related other) (device : Device σ) (host : σ) :
    (∃ state otherState after, intent.perform device host = (.ok state, after) ∧
      other.perform device host = (.ok otherState, after) ∧ related state otherState) ∨
    (∃ interruption after, intent.perform device host = (.error interruption, after) ∧
      other.perform device host = (.error interruption, after)) := by
  match intent, other, hrelated with
  | settle (.ok state), settle (.ok otherState), hrelated =>
      exact .inl ⟨state, otherState, host, rfl, rfl, hrelated⟩
  | settle (.error cause), settle (.error _), rfl =>
      exact .inr ⟨Machine.interruptionOf cause, host, rfl, rfl⟩
  | read resume, read other, hrelated =>
      simp only [perform]
      cases (Machine.askByte device host).1.result with
      | ok value => exact .inl ⟨_, _, _, rfl, rfl, hrelated value⟩
      | error interruption => exact .inr ⟨_, _, rfl, rfl⟩
  | write channel text resume, write _ _ other, ⟨rfl, rfl, hrelated⟩ =>
      simp only [perform]
      cases (device.write channel text host).1.result with
      | ok value => exact .inl ⟨_, _, _, rfl, rfl, hrelated⟩
      | error interruption => exact .inr ⟨_, _, rfl, rfl⟩

end Intent

namespace Machine

variable {σ : Type}

/-- What every completed instruction keeps, and that it is counted. -/
structure Succeeds (machine next : Machine) : Prop where
  program : next.program = machine.program
  registers : next.registers.size = machine.registers.size
  capacity : next.stack.capacity = machine.stack.capacity
  stack : machine.stack.WellFormed → next.stack.WellFormed
  executed : next.executed = machine.executed + 1

/-- A completed instruction goes on to the one behind it, which is as far away as its size says, or
to the end of the program, or to its branch target. -/
structure Completes (machine : Machine) (opcode : Opcode) (next : Machine) : Prop
    extends Succeeds machine next where
  pc : next.pc = machine.pc + opcode.size ∨ next.pc = machine.program.size ∨
    ((OperandKind.label, 1) ∈ operandPositions 1 opcode.operands ∧
      next.pc = machine.operandTarget 1)

section Completes

variable {machine : Machine} {opcode : Opcode}

theorem Completes.of_complete {size : Nat} (hsize : opcode.size = size) :
    machine.Completes opcode (machine.complete (machine.pc + size)) :=
  ⟨⟨rfl, rfl, rfl, id, rfl⟩, .inl (by rw [hsize]; rfl)⟩

theorem Completes.of_withRegister {size : Nat} (hsize : opcode.size = size) (distance : Nat)
    (value : UInt8) :
    machine.Completes opcode
      ((machine.withRegister distance value).complete (machine.pc + size)) :=
  ⟨⟨rfl, by simp [Machine.withRegister, Machine.complete], rfl, id, rfl⟩,
    .inl (by rw [hsize]; rfl)⟩

theorem Completes.of_withStack {size : Nat} (hsize : opcode.size = size) {stack : Stack}
    (hcapacity : stack.capacity = machine.stack.capacity) (hstack : stack.WellFormed) :
    machine.Completes opcode ({ machine with stack }.complete (machine.pc + size)) :=
  ⟨⟨rfl, rfl, hcapacity, fun _ => hstack, rfl⟩, .inl (by rw [hsize]; rfl)⟩

/-- What an instruction leads to is a completed instruction. -/
theorem completes_of_leadsTo {next : Machine} (hleads : (machine.intent opcode).LeadsTo next) :
    machine.Completes opcode next := by
  cases opcode with
  | nop =>
      obtain rfl := Except.ok.inj hleads
      exact .of_complete rfl
  | halt =>
      obtain rfl := Except.ok.inj hleads
      exact ⟨⟨rfl, rfl, rfl, id, rfl⟩, .inr (.inl rfl)⟩
  | binary op mode =>
      obtain ⟨value, -, rfl⟩ := map_eq_ok_iff.mp hleads
      exact .of_withRegister (by cases mode <;> rfl) 1 value
  | unary op =>
      obtain rfl := Except.ok.inj hleads
      exact .of_withRegister rfl 1 _
  | push mode =>
      obtain ⟨stack, hpush, rfl⟩ := map_eq_ok_iff.mp hleads
      exact .of_withStack (by cases mode <;> rfl) (Stack.capacity_of_push hpush) (.of_push hpush)
  | pop =>
      obtain ⟨⟨value, stack⟩, hpop, rfl⟩ := map_eq_ok_iff.mp hleads
      exact ⟨⟨rfl, by simp [Machine.withRegister, Machine.complete],
        Stack.capacity_of_pop hpop, fun _ => .of_pop hpop, rfl⟩, .inl rfl⟩
  | peek =>
      obtain ⟨value, -, rfl⟩ := map_eq_ok_iff.mp hleads
      exact .of_withRegister rfl 1 value
  | drop =>
      obtain ⟨⟨_, stack⟩, hpop, rfl⟩ := map_eq_ok_iff.mp hleads
      exact .of_withStack rfl (Stack.capacity_of_pop hpop) (.of_pop hpop)
  | compare mode =>
      obtain rfl := Except.ok.inj hleads
      exact ⟨⟨rfl, rfl, rfl, id, rfl⟩, .inl (by cases mode <;> rfl)⟩
  | branch condition =>
      obtain rfl := Except.ok.inj hleads
      refine ⟨⟨rfl, rfl, rfl, id, rfl⟩, ?_⟩
      simp only [complete]
      split
      next => exact .inr (.inr ⟨List.mem_cons_self, rfl⟩)
      next => exact .inl rfl
  | input =>
      obtain ⟨value, rfl⟩ := hleads
      exact .of_withRegister rfl 1 value
  | write channel style mode =>
      obtain rfl := hleads
      exact .of_complete (by cases mode <;> rfl)

end Completes

/-- A decoded instruction attempts what it sets out to do. -/
theorem attempt_of_decode (device : Device σ) {machine : Machine} {opcode : Opcode}
    (hdecode : machine.decode = .ok opcode) (host : σ) :
    machine.attempt device host = (machine.intent opcode).perform device host := by
  simp only [attempt, hdecode]

/-- A completed attempt is that of a decoded instruction. -/
theorem exists_completes_of_attempt {device : Device σ} {machine next : Machine} {host after : σ}
    (hattempt : machine.attempt device host = (.ok next, after)) :
    ∃ opcode, machine.decode = .ok opcode ∧ machine.Completes opcode next := by
  cases hdecode : machine.decode with
  | error interruption => simp [attempt, hdecode] at hattempt
  | ok opcode =>
      rw [attempt_of_decode device hdecode] at hattempt
      exact ⟨opcode, rfl, completes_of_leadsTo (Intent.leadsTo_of_perform hattempt)⟩

/-- Whatever instruction completes, it keeps what it has to. -/
theorem succeeds_of_attempt {device : Device σ} {machine next : Machine} {host after : σ}
    (hattempt : machine.attempt device host = (.ok next, after)) : machine.Succeeds next := by
  obtain ⟨_, -, hcompletes⟩ := exists_completes_of_attempt hattempt
  exact hcompletes.toSucceeds

theorem finished_eq_false_iff {machine : Machine} :
    machine.finished = false ↔ machine.pc < machine.program.size := by
  simp [finished]

/-! ### One instruction of a run -/

section Steps

variable {device : Device σ} {machine next : Machine} {host after : σ}

theorem runSteps_of_finished (hfinished : machine.finished = true) (count : Nat) :
    machine.runSteps device count host = ⟨.returned, machine, host⟩ := by
  cases count with
  | zero => rfl
  | succ count => simp [runSteps, hfinished]

/-- A run goes on from the machine that the first instruction leaves. -/
theorem runSteps_of_completed (hrunning : machine.finished = false)
    (hattempt : machine.attempt device host = (.ok next, after)) (count : Nat) :
    machine.runSteps device (count + 1) host = next.runSteps device count after := by
  simp only [runSteps, hrunning, run_step, hattempt, conclude]
  rfl

/-- A run ends with the first instruction that is interrupted, and the machine is as it was before
it. -/
theorem runSteps_of_interrupted (hrunning : machine.finished = false) {interruption : Interruption}
    (hattempt : machine.attempt device host = (.error interruption, after)) (count : Nat) :
    machine.runSteps device (count + 1) host =
      ⟨machine.endingOf (machine.operandByte 0) interruption, machine, after⟩ := by
  simp only [runSteps, hrunning, run_step, hattempt, conclude]
  rfl

/-- An interruption is always reported. -/
theorem endingOf_ne_returned (machine : Machine) (opcode : UInt8) (interruption : Interruption) :
    machine.endingOf opcode interruption ≠ .returned := by
  cases interruption <;> simp [endingOf]

end Steps

/-- How a run of at most `count` instructions comes to its result. -/
inductive Runs (device : Device σ) : Nat → Machine → σ → RunResult σ → Prop
  | stopped (machine : Machine) (host : σ) : Runs device 0 machine host ⟨.returned, machine, host⟩
  | finished {machine : Machine} (count : Nat) (host : σ) (hfinished : machine.finished = true) :
      Runs device count machine host ⟨.returned, machine, host⟩
  | interrupted {machine : Machine} {host after : σ} {interruption : Interruption} (count : Nat)
      (hrunning : machine.finished = false)
      (hattempt : machine.attempt device host = (.error interruption, after)) :
      Runs device (count + 1) machine host
        ⟨machine.endingOf (machine.operandByte 0) interruption, machine, after⟩
  | completed {machine next : Machine} {host after : σ} {count : Nat} {result : RunResult σ}
      (hrunning : machine.finished = false)
      (hattempt : machine.attempt device host = (.ok next, after))
      (hrest : Runs device count next after result) :
      Runs device (count + 1) machine host result

/-- What runs preserve is shown by induction on how they come to their result. -/
theorem runs_runSteps (device : Device σ) (count : Nat) (machine : Machine) (host : σ) :
    Runs device count machine host (machine.runSteps device count host) := by
  induction count generalizing machine host with
  | zero => exact .stopped machine host
  | succ count ih =>
      cases hfinished : machine.finished with
      | true =>
          rw [runSteps_of_finished hfinished]
          exact .finished _ host hfinished
      | false =>
          rcases hattempt : machine.attempt device host with ⟨interruption | next, after⟩
          · rw [runSteps_of_interrupted hfinished hattempt]
            exact .interrupted count hfinished hattempt
          · rw [runSteps_of_completed hfinished hattempt]
            exact .completed hfinished hattempt (ih next after)

/-- Two runs one after the other are one run. -/
theorem Runs.runSteps_add {device : Device σ} {count : Nat} {machine : Machine} {host : σ}
    {result : RunResult σ} (hruns : Runs device count machine host result) (more : Nat) :
    machine.runSteps device (count + more) host =
      if result.ending = .returned then result.machine.runSteps device more result.host
      else result := by
  induction hruns with
  | stopped machine host => simp
  | finished count host hfinished =>
      simp [runSteps_of_finished hfinished]
  | interrupted count hrunning hattempt =>
      rw [Nat.add_right_comm, runSteps_of_interrupted hrunning hattempt,
        if_neg (endingOf_ne_returned _ _ _)]
  | completed hrunning hattempt hrest ih =>
      rw [Nat.add_right_comm, runSteps_of_completed hrunning hattempt, ih]

/-- The instructions of a run are counted. It returns only when it has executed all of them, or the
program has ended. -/
theorem Runs.executed {device : Device σ} {count : Nat} {machine : Machine} {host : σ}
    {result : RunResult σ} (hruns : Runs device count machine host result) :
    machine.executed ≤ result.machine.executed ∧
      (result.ending = .returned → result.machine.executed ≤ machine.executed + count ∧
        (result.machine.finished = false → result.machine.executed = machine.executed + count)) ∧
      (result.ending ≠ .returned → result.machine.executed < machine.executed + count) := by
  induction hruns with
  | stopped machine host => simp
  | finished count host hfinished => simp [hfinished]
  | interrupted count hrunning hattempt =>
      simp [endingOf_ne_returned]
  | completed hrunning hattempt hrest ih =>
      have hexecuted := (succeeds_of_attempt hattempt).executed
      obtain ⟨hle, hreturned, hfailed⟩ := ih
      refine ⟨by omega, ?_, ?_⟩
      · intro hending
        obtain ⟨hmost, hall⟩ := hreturned hending
        refine ⟨by omega, ?_⟩
        intro hfinished
        have := hall hfinished
        omega
      · intro hending
        have := hfailed hending
        omega

/-- A run that returns has executed something, unless it was at the end or had no steps to take. -/
theorem Runs.executed_lt {device : Device σ} {count : Nat} {machine : Machine} {host : σ}
    {result : RunResult σ} (hruns : Runs device count machine host result) (hcount : 0 < count)
    (hrunning : machine.finished = false) (hreturned : result.ending = .returned) :
    machine.executed < result.machine.executed := by
  cases hruns with
  | stopped => omega
  | finished _ _ hfinished => simp [hfinished] at hrunning
  | interrupted => exact absurd hreturned (endingOf_ne_returned _ _ _)
  | completed _ hattempt hrest =>
      have hexecuted := (succeeds_of_attempt hattempt).executed
      have hle := hrest.executed.1
      omega

end Machine

/-! ### Runs with and without a limit -/

/-- The result of a run that was to end the program: if it did not, it has run out of fuel. -/
def RunResult.orOutOfFuel {σ : Type} (result : RunResult σ) : RunResult σ :=
  if result.ending = .returned ∧ result.machine.finished = false then
    { result with ending := .outOfFuel }
  else result

namespace Machine

variable {σ : Type} {device : Device σ} {limit : Int}

theorem run_of_pos (hlimit : 0 < limit) (fuel : Nat) (machine : Machine) (host : σ) :
    machine.run device fuel limit host = machine.runSteps device limit.toNat host := by
  simp only [run, hlimit, ↓reduceIte]

theorem run_of_nonpos (hlimit : ¬ 0 < limit) (fuel : Nat) (machine : Machine) (host : σ) :
    machine.run device fuel limit host = (machine.runSteps device fuel host).orOutOfFuel := by
  simp only [run, hlimit, ↓reduceIte, RunResult.orOutOfFuel]
  split
  next hending => cases hfinished : (machine.runSteps device fuel host).machine.finished <;>
    simp [hending]
  next hending => rw [if_neg (fun hcut => hending hcut.1)]

theorem run_one_of_completed {machine next : Machine} {host after : σ}
    (hrunning : machine.finished = false)
    (hattempt : machine.attempt device host = (.ok next, after)) (fuel : Nat) :
    machine.run device fuel 1 host = ⟨.returned, next, after⟩ := by
  rw [run_of_pos (by decide)]
  exact runSteps_of_completed hrunning hattempt 0

theorem run_one_of_interrupted {machine : Machine} {host after : σ} {interruption : Interruption}
    (hrunning : machine.finished = false)
    (hattempt : machine.attempt device host = (.error interruption, after)) (fuel : Nat) :
    machine.run device fuel 1 host =
      ⟨machine.endingOf (machine.operandByte 0) interruption, machine, after⟩ := by
  rw [run_of_pos (by decide)]
  exact runSteps_of_interrupted hrunning hattempt 0

end Machine

end Octet
