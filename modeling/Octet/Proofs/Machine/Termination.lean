import Mathlib.Data.List.Nodup
import Octet.Proofs.Machine.Retry
import Octet.Proofs.Machine.Safety
import Octet.Proofs.Machine.Validity

/-! # Programs that only go forward

Nothing but a branch can take a machine back to an instruction that it has executed. If
every branch of a program goes forward, each completed instruction leaves the machine
further on, and always at an instruction of the table, at its end or at the end of the
program. So no instruction is executed twice, a run executes no more of them than the
table has, and one more attempt is enough to see it end. This holds for arbitrary bytes,
whatever becomes of those behind the table.
-/

namespace Octet

/-- Every branch of the table whose target is valid goes to a later position. -/
def Cluster.GoesForward (cluster : Cluster) : Prop :=
  ∀ offset ∈ cluster.offsets,
    BranchesTo cluster.code (fun target => cluster.isTarget target = true → offset < target) offset

instance (code : Array UInt8) (good : Nat → Prop) [DecidablePred good] (offset : Nat) :
    Decidable (BranchesTo code good offset) :=
  inferInstanceAs (Decidable (∀ opcode ∈ Opcode.ofByte? (code.getD offset 0),
    ∀ operand ∈ operandPositions (offset + 1) opcode.operands, operand.1 = .label →
      good (targetAt code operand.2)))

instance (cluster : Cluster) : Decidable cluster.GoesForward :=
  inferInstanceAs (Decidable (∀ offset ∈ cluster.offsets, BranchesTo cluster.code _ offset))

namespace Machine

variable {σ : Type} {device : Device σ} {machine next : Machine} {host after : σ}
  {result : RunResult σ}

/-- A completed instruction leaves the machine further on. -/
theorem pc_lt_of_completed (hforward : machine.program.GoesForward) (htable : machine.OnTable)
    (hrunning : machine.finished = false)
    (hattempt : machine.attempt device host = (.ok next, after)) : machine.pc < next.pc := by
  obtain ⟨opcode, hdecode, hcompletes⟩ := exists_completes_of_attempt hattempt
  rcases hcompletes.pc with hnext | hend | ⟨hlabel, htarget⟩
  · have hsize : 0 < opcode.size := by unfold Opcode.size; omega
    omega
  · rw [hend]
    exact finished_eq_false_iff.mp hrunning
  · -- the target of a branch has been checked before it is taken, so the program is bound to it
    have hsound := (isTarget_of_decode hdecode hlabel).2
    have hopcode := (decode_iff.mp hdecode).2.1
    have hposition : (OperandKind.label, machine.pc + 1) ∈
        operandPositions (machine.pc + 1) opcode.operands := by
      rw [operandPositions_add]
      exact List.mem_map_of_mem hlabel
    rw [htarget]
    exact hforward machine.pc (mem_offsets_of_decode htable hdecode) opcode hopcode _ hposition rfl
      hsound

/-! ### The instructions of a run -/

/-- The positions of the instructions that a run has executed, in order. -/
def executedAt (device : Device σ) (machine : Machine) (host : σ) (result : RunResult σ) :
    List Nat :=
  (List.range (result.machine.executed - machine.executed)).map fun completed =>
    (machine.runSteps device completed host).machine.pc

/-- There is one position for each instruction that was executed. -/
theorem length_executedAt (device : Device σ) (machine : Machine) (host : σ)
    (result : RunResult σ) :
    (machine.executedAt device host result).length =
      result.machine.executed - machine.executed := by
  rw [executedAt, List.length_map, List.length_range]

theorem executedAt_of_unmoved (device : Device σ) (machine : Machine) (host after : σ)
    (ending : Ending) : machine.executedAt device host ⟨ending, machine, after⟩ = [] := by
  rw [executedAt, Nat.sub_self]
  rfl

theorem executedAt_of_completed (hrunning : machine.finished = false)
    (hattempt : machine.attempt device host = (.ok next, after))
    (hle : next.executed ≤ result.machine.executed) :
    machine.executedAt device host result = machine.pc :: next.executedAt device after result := by
  have hcount : result.machine.executed - machine.executed =
      result.machine.executed - next.executed + 1 := by
    have hexecuted := (succeeds_of_attempt hattempt).executed
    omega
  rw [executedAt, hcount, List.range_succ_eq_map, List.map_cons, List.map_map]
  refine congrArg (machine.pc :: ·) (List.map_congr_left fun completed _ => ?_)
  exact congrArg (·.machine.pc) (runSteps_of_completed hrunning hattempt completed)

/-- The instructions that a run executes are those of the table, and each stands behind the one
before it. -/
theorem Runs.executedAt_increasing {count : Nat} (hruns : Runs device count machine host result)
    (hforward : machine.program.GoesForward) (htable : machine.OnTable) :
    (∀ position ∈ machine.executedAt device host result,
      machine.pc ≤ position ∧ position ∈ machine.program.offsets) ∧
      (machine.executedAt device host result).Pairwise (· < ·) := by
  induction hruns with
  | stopped | finished | interrupted =>
      rw [executedAt_of_unmoved]
      exact ⟨List.forall_mem_nil _, .nil⟩
  | @completed machine next host after count result hrunning hattempt hrest ih =>
      have hprogram := (succeeds_of_attempt hattempt).program
      obtain ⟨opcode, hdecode, -⟩ := exists_completes_of_attempt hattempt
      have hhere := mem_offsets_of_decode htable hdecode
      have hlt := pc_lt_of_completed hforward htable hrunning hattempt
      obtain ⟨hlater, hincreasing⟩ := ih (hprogram ▸ hforward) (htable.of_attempt hattempt)
      rw [hprogram] at hlater
      rw [executedAt_of_completed hrunning hattempt hrest.executed.1]
      constructor
      · rw [List.forall_mem_cons]
        refine ⟨⟨Nat.le_refl _, hhere⟩, fun position hposition => ?_⟩
        obtain ⟨hle, hmem⟩ := hlater position hposition
        exact ⟨by omega, hmem⟩
      · refine hincreasing.cons fun position hposition => ?_
        have hle := (hlater position hposition).1
        omega

/-- No more instructions are executed than the table has. -/
theorem Runs.length_executedAt_le {count : Nat} (hruns : Runs device count machine host result)
    (hforward : machine.program.GoesForward) (htable : machine.OnTable) :
    (machine.executedAt device host result).length ≤ machine.program.count := by
  obtain ⟨hmem, hincreasing⟩ := hruns.executedAt_increasing hforward htable
  have hnodup : (machine.executedAt device host result).Nodup := hincreasing.imp Nat.ne_of_lt
  have hsubset : machine.executedAt device host result ⊆ machine.program.offsets.toList :=
    fun position hposition => Array.mem_toList_iff.mpr (hmem position hposition).2
  have hle := (hnodup.subperm hsubset).length_le
  rwa [Array.length_toList] at hle

/-- One attempt more than there are instructions in the table is enough. -/
theorem ended_of_goesForward (device : Device σ) (hforward : machine.program.GoesForward)
    (htable : machine.OnTable) (host : σ) :
    (machine.runSteps device (machine.program.count + 1) host).Ended := by
  have hruns := runs_runSteps device (machine.program.count + 1) machine host
  have hle := hruns.length_executedAt_le hforward htable
  rw [length_executedAt] at hle
  by_contra hnot
  simp only [RunResult.Ended, not_or, not_not, Bool.not_eq_true] at hnot
  have hall := (hruns.executed.2.1 hnot.1).2 hnot.2
  omega

/-- A program whose branches go forward comes to its end or to a fault, from its start on, whatever
the state of the machine is and the host answers. There is one result for any fuel that exceeds the
size of the table, and the instructions executed until then are instructions of the table, each of
which stands behind the one before it. -/
theorem run_ends_of_goesForward {registers capacity : Int} {loads : Cluster → Prop}
    (hreachable : Reachable registers capacity loads machine) (hstart : machine.pc = 0)
    (hforward : machine.program.GoesForward) (hdevice : device.Returns) (host : σ) :
    ∃ result : RunResult σ,
      (∀ (fuel : Nat) (limit : Int), machine.program.count < fuel → limit ≤ 0 →
        machine.run device fuel limit host = result) ∧
      ((result.ending = .returned ∧ result.machine.pc = machine.program.size) ∨
        ∃ reason, result.ending =
          .failed (.runtime result.machine.pc (result.machine.operandByte 0) reason)) ∧
      let positions := machine.executedAt device host result
      result.machine.executed = machine.executed + positions.length ∧
        positions.length ≤ machine.program.count ∧
        (∀ position ∈ positions, position ∈ machine.program.offsets) ∧
        positions.Pairwise (· < ·) := by
  have htable := onTable_of_start hstart
  have hruns := runs_runSteps device (machine.program.count + 1) machine host
  have hended := ended_of_goesForward device hforward htable host
  refine ⟨machine.runSteps device (machine.program.count + 1) host, ?_, ?_, ?_⟩
  · intro fuel limit hfuel hlimit
    obtain ⟨more, rfl⟩ := Nat.exists_eq_add_of_le hfuel
    rw [run_of_nonpos (by omega)]
    exact (congrArg RunResult.orOutOfFuel (runSteps_of_ended hended more)).trans
      (orOutOfFuel_of_ended hended)
  · refine (hruns.ending hdevice hreachable.hasSizes.stack).imp_left fun hreturned => ?_
    refine ⟨hreturned, ?_⟩
    -- a run that returns here has come to the end of the program, and not beyond it
    have hfinished := hended.resolve_left (fun hnot => hnot hreturned)
    have hle : _ ≤ _ := (hruns.preserves (fun _ hattempt htable => htable.of_attempt hattempt)
      htable).le_size
    rw [hruns.program] at hle
    have hge : _ ≤ _ := of_decide_eq_true hfinished
    rw [hruns.program] at hge
    exact Nat.le_antisymm hle hge
  · obtain ⟨hmem, hincreasing⟩ := hruns.executedAt_increasing hforward htable
    refine ⟨?_, hruns.length_executedAt_le hforward htable,
      fun position hposition => (hmem position hposition).2, hincreasing⟩
    rw [length_executedAt]
    have hle := hruns.executed.1
    omega

/-- A branch forward leaves an instruction out; the one it leads to would go back, into the first
instruction, and is a fault. -/
theorem run_ends_of_goesForward_of_skip :
    let program := Cluster.ofCode #[25, 0, 36, 7, 0, 28, 7, 34, 1, 0]
    let machine : Machine := ⟨program, 0, #[0], .new 1, .unset, 0⟩
    program.offsets = #[0, 2, 5, 7] ∧ program.GoesForward ∧
      ∃ result, (∀ fuel, 4 < fuel → machine.run Device.keeping fuel 0 [] = result) ∧
        result.ending =
          .failed (.runtime 7 34 (.context "1" (.cause .invalidBranchTarget))) ∧
        machine.executedAt Device.keeping [] result = [0, 2] := by
  intro program machine
  have htable : program.offsets = #[0, 2, 5, 7] := by decide +kernel
  have hforward : program.GoesForward := by decide +kernel
  have hreachable : Reachable 1 1 (fun _ => True) machine := .changed (.new rfl) (.load _ trivial)
  obtain ⟨result, hruns, -⟩ := run_ends_of_goesForward hreachable rfl hforward
    Device.keeping_returns ([] : List (List UInt8))
  have hcount : machine.program.count = 4 := congrArg Array.size htable
  have hresult := hruns 5 0 (by omega) (by decide)
  refine ⟨htable, hforward, result, fun fuel hfuel => hruns fuel 0 (by omega) (by decide), ?_⟩
  rw [← hresult]
  exact ⟨by decide +kernel, by decide +kernel⟩

end Machine

end Octet
