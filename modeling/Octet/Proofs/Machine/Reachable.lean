import Octet.Proofs.Machine.Run

/-! # Reachable machines

The machines that a host can come to: it makes a new one, and then loads programs,
runs them with any device and any limit, resets the machine, and changes its
registers and its stack. Input is redirected by giving the next run another
device. The sizes of a machine never change.
-/

namespace Octet.Machine

variable {σ : Type}

/-- What a host can do to a machine; the programs it loads are among those that `loads` selects. -/
inductive Changes (loads : Cluster → Prop) : Machine → Machine → Prop
  | load (machine : Machine) {program : Cluster} (hloads : loads program) :
      Changes loads machine (machine.load program)
  | run {σ : Type} (device : Device σ) (fuel : Nat) (limit : Int) (machine : Machine) (host : σ) :
      Changes loads machine (machine.run device fuel limit host).machine
  | reset (machine : Machine) : Changes loads machine machine.reset
  | setRegister {machine next : Machine} {index : Int} {value : UInt8}
      (hset : machine.setRegister index value = .ok next) : Changes loads machine next
  | push {machine next : Machine} {value : UInt8} (hpush : machine.push value = .ok next) :
      Changes loads machine next
  | pop {machine next : Machine} {value : UInt8} (hpop : machine.pop = .ok (value, next)) :
      Changes loads machine next
  | poke {machine next : Machine} {slot : Int} {value : UInt8}
      (hpoke : machine.poke? slot value = some next) : Changes loads machine next

/-- The machines that a host can come to from a new one of the given sizes. -/
inductive Reachable (registers capacity : Int) (loads : Cluster → Prop) : Machine → Prop
  | new {machine : Machine} (hnew : Machine.new registers capacity [] = .ok machine) :
      Reachable registers capacity loads machine
  | changed {machine next : Machine} (hreachable : Reachable registers capacity loads machine)
      (hchanges : Changes loads machine next) : Reachable registers capacity loads next

/-- What every completed instruction preserves, a run preserves. -/
theorem Runs.preserves {device : Device σ} {invariant : Machine → Prop}
    (hattempts : ∀ {machine next : Machine} {host after : σ}, machine.finished = false →
      machine.attempt device host = (.ok next, after) → invariant machine → invariant next)
    {count : Nat} {machine : Machine} {host : σ} {result : RunResult σ}
    (hruns : Runs device count machine host result) (hinvariant : invariant machine) :
    invariant result.machine := by
  induction hruns with
  | stopped => exact hinvariant
  | finished => exact hinvariant
  | interrupted => exact hinvariant
  | completed hrunning hattempt _ ih => exact ih (hattempts hrunning hattempt hinvariant)

/-- The stack does not outgrow its capacity in a run. -/
theorem Runs.wellFormed {device : Device σ} {count : Nat} {machine : Machine} {host : σ}
    {result : RunResult σ} (hruns : Runs device count machine host result)
    (hstack : machine.stack.WellFormed) : result.machine.stack.WellFormed :=
  hruns.preserves (fun _ hattempt => (succeeds_of_attempt hattempt).stack) hstack

/-- A run does not change the program. -/
theorem Runs.program {device : Device σ} {count : Nat} {machine : Machine} {host : σ}
    {result : RunResult σ} (hruns : Runs device count machine host result) :
    result.machine.program = machine.program := by
  induction hruns with
  | stopped => rfl
  | finished => rfl
  | interrupted => rfl
  | completed _ hattempt _ ih => exact ih.trans (succeeds_of_attempt hattempt).program

/-- A run does not change the number of registers. -/
theorem Runs.registers {device : Device σ} {count : Nat} {machine : Machine} {host : σ}
    {result : RunResult σ} (hruns : Runs device count machine host result) :
    result.machine.registers.size = machine.registers.size := by
  induction hruns with
  | stopped => rfl
  | finished => rfl
  | interrupted => rfl
  | completed _ hattempt _ ih => exact ih.trans (succeeds_of_attempt hattempt).registers

/-- A run is `runSteps`, as far as the machine goes. -/
theorem exists_runSteps_of_run (device : Device σ) (fuel : Nat) (limit : Int) (machine : Machine)
    (host : σ) :
    ∃ count, (machine.run device fuel limit host).machine =
      (machine.runSteps device count host).machine := by
  by_cases hlimit : 0 < limit
  · exact ⟨_, congrArg RunResult.machine (run_of_pos hlimit fuel machine host)⟩
  · refine ⟨fuel, ?_⟩
    rw [run_of_nonpos hlimit]
    unfold RunResult.orOutOfFuel
    split <;> rfl

/-- The sizes of a machine, with a stack that keeps to its own. -/
structure HasSizes (registers capacity : Nat) (machine : Machine) : Prop where
  registers : machine.registers.size = registers
  capacity : machine.stack.capacity = capacity
  stack : machine.stack.WellFormed

theorem capacity_clear (stack : Stack) : stack.clear.capacity = stack.capacity := by
  simp only [Stack.clear, Stack.capacity, Array.size_append, Array.size_replicate,
    Array.size_extract]
  omega

/-- A change loads a program, runs some instructions, resets the machine, or touches no more than
the values in registers and on the stack. -/
theorem Changes.outcome {loads : Cluster → Prop} {machine next : Machine}
    (hchanges : Changes loads machine next) :
    (∃ program, loads program ∧ next = machine.load program) ∨
    (∃ (σ : Type) (device : Device σ) (count : Nat) (host : σ),
      next = (machine.runSteps device count host).machine) ∨
    next = machine.reset ∨
    (∃ registers stack, next = { machine with registers, stack } ∧
      registers.size = machine.registers.size ∧ stack.capacity = machine.stack.capacity ∧
      (machine.stack.WellFormed → stack.WellFormed)) := by
  cases hchanges with
  | load _ hloads => exact .inl ⟨_, hloads, rfl⟩
  | run device fuel limit _ host =>
      obtain ⟨count, hresult⟩ := exists_runSteps_of_run device fuel limit machine host
      exact .inr (.inl ⟨_, device, count, host, hresult⟩)
  | reset => exact .inr (.inr (.inl rfl))
  | setRegister hset =>
      unfold Machine.setRegister at hset
      split at hset
      next =>
        obtain rfl := Except.ok.inj hset
        exact .inr (.inr (.inr ⟨_, _, rfl, by simp, rfl, id⟩))
      next => cases hset
  | push hpush =>
      unfold Machine.push at hpush
      split at hpush
      next stack hstack =>
        obtain rfl := Except.ok.inj hpush
        exact .inr (.inr (.inr ⟨_, stack, rfl, rfl, Stack.capacity_of_push hstack,
          fun _ => .of_push hstack⟩))
      next => cases hpush
  | pop hpop =>
      unfold Machine.pop at hpop
      split at hpop
      next value stack hstack =>
        obtain ⟨-, rfl⟩ := Prod.mk.inj (Except.ok.inj hpop)
        exact .inr (.inr (.inr ⟨_, stack, rfl, rfl, Stack.capacity_of_pop hstack,
          fun _ => .of_pop hstack⟩))
      next => cases hpop
  | poke hpoke =>
      unfold Machine.poke? at hpoke
      split at hpoke
      next =>
        obtain rfl := Option.some.inj hpoke
        exact .inr (.inr (.inr ⟨_, _, rfl, rfl, by simp [Stack.capacity],
          fun hstack => by simpa [Stack.WellFormed, Stack.capacity] using hstack⟩))
      next => cases hpoke

/-- Nothing that is done to a machine changes its sizes. -/
theorem HasSizes.of_changes {registers capacity : Nat} {loads : Cluster → Prop}
    {machine next : Machine} (hsizes : machine.HasSizes registers capacity)
    (hchanges : Changes loads machine next) : next.HasSizes registers capacity := by
  rcases hchanges.outcome with ⟨program, -, rfl⟩ | ⟨σ, device, count, host, rfl⟩ | rfl |
    ⟨values, stack, rfl, hvalues, hcapacity, hstack⟩
  · exact ⟨hsizes.registers, hsizes.capacity, hsizes.stack⟩
  · refine (runs_runSteps device count machine host).preserves ?_ hsizes
    intro _ _ _ _ _ hattempt hbefore
    have hsucceeds := succeeds_of_attempt hattempt
    exact ⟨hsucceeds.registers.trans hbefore.registers,
      hsucceeds.capacity.trans hbefore.capacity, hsucceeds.stack hbefore.stack⟩
  · exact ⟨by simp [Machine.reset, hsizes.registers],
      (capacity_clear _).trans hsizes.capacity, Nat.zero_le _⟩
  · exact ⟨hvalues.trans hsizes.registers, hcapacity.trans hsizes.capacity, hstack hsizes.stack⟩

/-- A new machine has no program, and all of it is zero. -/
theorem eq_of_new {registers capacity : Int} {machine : Machine}
    (hnew : Machine.new registers capacity [] = .ok machine) :
    machine = ⟨.empty, 0, Array.replicate registers.toNat 0, .new capacity.toNat, .unset, 0⟩ := by
  unfold Machine.new at hnew
  split at hnew
  next => cases hnew
  next =>
    split at hnew
    next => cases hnew
    next => exact (Except.ok.inj hnew).symm

/-- A machine always has the sizes that it was made with. -/
theorem Reachable.hasSizes {registers capacity : Int} {loads : Cluster → Prop} {machine : Machine}
    (hreachable : Reachable registers capacity loads machine) :
    machine.HasSizes registers.toNat capacity.toNat := by
  induction hreachable with
  | new hnew =>
      obtain rfl := eq_of_new hnew
      exact ⟨by simp, by simp [Stack.new, Stack.capacity], Nat.zero_le _⟩
  | changed _ hchanges ih => exact ih.of_changes hchanges

/-- The program of a reachable machine is one that was loaded, or there is none. -/
theorem Reachable.program {registers capacity : Int} {loads : Cluster → Prop} {machine : Machine}
    (hreachable : Reachable registers capacity loads machine) :
    machine.program = .empty ∨ loads machine.program := by
  induction hreachable with
  | new hnew =>
      obtain rfl := eq_of_new hnew
      exact .inl rfl
  | changed _ hchanges ih =>
      rcases hchanges.outcome with ⟨program, hloads, rfl⟩ | ⟨σ, device, count, host, rfl⟩ | rfl |
        ⟨values, stack, rfl, -⟩
      · exact .inr hloads
      · rw [(runs_runSteps device count _ host).program]
        exact ih
      · exact ih
      · exact ih

/-- Some instructions of a run lead to a reachable machine. -/
theorem Reachable.runSteps {registers capacity : Int} {loads : Cluster → Prop} {machine : Machine}
    (hreachable : Reachable registers capacity loads machine) (device : Device σ) (count : Nat)
    (host : σ) :
    Reachable registers capacity loads (machine.runSteps device count host).machine := by
  rcases Nat.eq_zero_or_pos count with rfl | hpos
  · exact hreachable
  · have hrun : Changes loads machine _ := .run device 0 count machine host
    rw [run_of_pos (by omega), Int.toNat_natCast] at hrun
    exact hreachable.changed hrun

end Octet.Machine
