import Mathlib.Logic.Relation
import Octet.Proofs.Machine.Calls
import Octet.Proofs.Machine.Position

/-! # What holds of a machine at all times

A host makes a machine and then does to it whatever it can, any number of times. The
sizes of the machine stay, its stack keeps to its capacity, and it never comes to
stand inside an instruction. The same holds between any two instructions of a run,
which is where a host is called. The channels of the host are no part of a machine,
so exchanging them between runs is running with another device.
-/

namespace Octet.Machine

variable {σ : Type}

/-- What holds of a machine with the given sizes. -/
structure Invariant (registers capacity : Int) (machine : Machine) : Prop where
  registers : (machine.registers.size : Int) = registers
  capacity : (machine.stack.capacity : Int) = capacity
  stack : machine.stack.size ≤ machine.stack.capacity
  flag : machine.flag.toByte ∈ [0, Flag.less.toByte, Flag.equal.toByte, Flag.greater.toByte]
  pc : machine.pc ≤ machine.program.size
  onTable : machine.OnTable
  /-- The position is not behind the first byte of an instruction and before its end. -/
  notInside : ∀ offset ∈ machine.program.offsets, ∀ size,
    instructionSize? machine.program.code offset = some size →
      machine.pc ≤ offset ∨ offset + size ≤ machine.pc

/-! ### Positions on the table -/

theorem OnTable.le_size {machine : Machine} (htable : machine.OnTable) :
    machine.pc ≤ machine.program.size := by
  obtain ⟨stop, hscans⟩ := machine.program.exists_scans
  have hstop : stop ≤ machine.program.size := hscans.stop_le (Nat.zero_le _)
  rcases htable with hmem | hend | hhere
  · obtain ⟨size, -, -, hle⟩ := hscans.size_of_mem (Array.mem_toList_iff.mpr hmem)
    omega
  · exact Nat.le_of_eq hend
  · obtain ⟨-, rfl⟩ := hhere.unique hscans
    exact hstop

/-- An instruction of the table ends before the next one starts. -/
theorem OnTable.not_inside {machine : Machine} (htable : machine.OnTable) {offset size : Nat}
    (hmem : offset ∈ machine.program.offsets)
    (hsize : instructionSize? machine.program.code offset = some size) :
    machine.pc ≤ offset ∨ offset + size ≤ machine.pc := by
  obtain ⟨stop, hscans⟩ := machine.program.exists_scans
  have hoffset := Array.mem_toList_iff.mpr hmem
  obtain ⟨found, hfound, -, hle⟩ := hscans.size_of_mem hoffset
  obtain rfl : size = found := Option.some.inj (hsize.symm.trans hfound)
  rcases htable with hhere | hend | hhere
  · exact hscans.le_or_le_of_mem hoffset hsize (Array.mem_toList_iff.mpr hhere)
  · have hstop : stop ≤ machine.program.size := hscans.stop_le (Nat.zero_le _)
    omega
  · obtain ⟨-, rfl⟩ := hhere.unique hscans
    exact .inr hle

/-! ### Machines that a host comes to -/

/-- A setting of a new machine does to it what a host can do to it. -/
def IsSetting (setting : Machine → Except Failure Machine) : Prop :=
  ∀ machine next, setting machine = .ok next →
    Relation.ReflTransGen (Changes fun _ => True) machine next

/-- Applying settings one after the other amounts to changes. -/
theorem changes_of_settings {settings : List (Machine → Except Failure Machine)}
    (hsettings : ∀ setting ∈ settings, IsSetting setting) {machine next : Machine}
    (happlied : settings.foldlM (fun machine setting => setting machine) machine = .ok next) :
    Relation.ReflTransGen (Changes fun _ => True) machine next := by
  induction settings generalizing machine with
  | nil =>
      obtain rfl := Except.ok.inj happlied
      exact .refl
  | cons setting settings ih =>
      obtain ⟨hfirst, hrest⟩ := List.forall_mem_cons.mp hsettings
      rw [List.foldlM_cons] at happlied
      cases hset : setting machine with
      | error failure =>
          rw [hset] at happlied
          cases happlied
      | ok middle =>
          rw [hset] at happlied
          exact (hfirst machine middle hset).trans (ih hrest happlied)

/-- A machine with settings is one without, to which the settings were applied. -/
theorem new_of_settings {registers capacity : Int}
    {settings : List (Machine → Except Failure Machine)} {start : Machine}
    (hnew : Machine.new registers capacity settings = .ok start) :
    (1 ≤ registers ∧ 1 ≤ capacity) ∧ ∃ bare, Machine.new registers capacity [] = .ok bare ∧
      settings.foldlM (fun machine setting => setting machine) bare = .ok start := by
  unfold Machine.new at hnew ⊢
  split at hnew
  next => cases hnew
  next hregisters =>
    split at hnew
    next => cases hnew
    next hcapacity =>
      refine ⟨by omega, _, ?_, hnew⟩
      rw [if_neg hregisters, if_neg hcapacity]
      rfl

theorem Reachable.trans {registers capacity : Int} {loads : Cluster → Prop}
    {machine next : Machine} (hreachable : Reachable registers capacity loads machine)
    (hchanges : Relation.ReflTransGen (Changes loads) machine next) :
    Reachable registers capacity loads next := by
  induction hchanges with
  | refl => exact hreachable
  | tail _ hchange ih => exact ih.changed hchange

/-- The invariant holds for new machines, and every change keeps it. -/
theorem Reachable.invariant {registers capacity : Int} {loads : Cluster → Prop}
    {machine : Machine} (hreachable : Reachable registers capacity loads machine)
    (hregisters : 1 ≤ registers) (hcapacity : 1 ≤ capacity) :
    machine.Invariant registers capacity := by
  have hsizes := hreachable.hasSizes
  have htable := hreachable.onTable
  refine ⟨?_, ?_, hsizes.stack, ?_, htable.le_size, htable, ?_⟩
  · rw [hsizes.registers]
    omega
  · rw [hsizes.capacity]
    omega
  · cases machine.flag <;> decide
  · exact fun offset hmem size hsize => htable.not_inside hmem hsize

/-- Whatever a host does to a machine that it has made, the invariant holds, also after any number
of instructions of a run on any host. An instruction that is executed then is one of the table. -/
theorem changes_invariant {registers capacity : Int}
    {settings : List (Machine → Except Failure Machine)}
    (hsettings : ∀ setting ∈ settings, IsSetting setting) {start machine : Machine}
    (hnew : Machine.new registers capacity settings = .ok start)
    (hchanges : Relation.ReflTransGen (Changes fun _ => True) start machine) :
    machine.Invariant registers capacity ∧
      ∀ (σ : Type) (device : Device σ) (count : Nat) (host : σ),
        let result := machine.runSteps device count host
        result.machine.Invariant registers capacity ∧
          ∀ next : Attached σ, (step device).run ⟨result.machine, result.host⟩ = .ok () next →
            result.machine.pc ∈ result.machine.program.offsets := by
  obtain ⟨⟨hregisters, hcapacity⟩, bare, hbare, happlied⟩ := new_of_settings hnew
  have hstart : Reachable registers capacity (fun _ => True) start :=
    (Reachable.new hbare).trans (changes_of_settings hsettings happlied)
  have hmachine := hstart.trans hchanges
  refine ⟨hmachine.invariant hregisters hcapacity, ?_⟩
  intro σ device count host result
  have hresult := hmachine.runSteps device count host
  refine ⟨hresult.invariant hregisters hcapacity, ?_⟩
  intro next hstep
  rw [run_step] at hstep
  rcases hattempt : result.machine.attempt device result.host with ⟨_ | reached, after⟩
  · rw [hattempt] at hstep
    cases hstep
  · obtain ⟨opcode, hdecode, -⟩ := exists_completes_of_attempt hattempt
    exact mem_offsets_of_decode hresult.onTable hdecode

/-- After the program of a setting has run into a byte that names no instruction, the machine stands
where its table stops. -/
theorem changes_invariant_of_stop :
    let program := Cluster.ofCode #[28, 7, 99]
    let start : Machine := ⟨program, 0, #[0], .new 1, .unset, 0⟩
    let machine := (start.run Device.keeping 4 0 []).machine
    machine.Invariant 1 1 ∧ machine.pc = 2 ∧ machine.stack.size = 1 ∧
      Scans machine.program.code 0 machine.program.offsets.toList machine.pc := by
  intro program start machine
  have hsettings : ∀ setting ∈ [fun machine : Machine => Except.ok (machine.load program)],
      IsSetting setting := by
    simp only [List.mem_singleton, forall_eq]
    rintro bare next ⟨rfl⟩
    exact .single (.load bare trivial)
  have hchanges : Relation.ReflTransGen (Changes fun _ => True) start machine :=
    .single (.run Device.keeping 4 0 start [])
  have hnew : Machine.new 1 1 [fun machine => .ok (machine.load program)] = .ok start := rfl
  obtain ⟨hinvariant, -⟩ := changes_invariant hsettings hnew hchanges
  have hpc : machine.pc = 2 := by decide +kernel
  have hprogram : machine.program.offsets = #[0] ∧ machine.program.size = 3 := by decide +kernel
  refine ⟨hinvariant, hpc, by decide +kernel, ?_⟩
  have htable := hinvariant.onTable
  simpa [OnTable, hpc, hprogram] using htable

end Octet.Machine
