import Octet.Proofs.Cluster.Table
import Octet.Proofs.Machine.Reachable

/-! # Where a machine stands

Every completed instruction leads to the instruction behind it, to a branch target
or to the end of the program. So a machine never comes to stand inside an
instruction: it stands at an instruction of the table, at the end of the program, or
where the scan of the table stopped. This holds for arbitrary bytes.
-/

namespace Octet.Machine

variable {σ : Type}

/-- The position is that of an instruction in the table, the end of the program, or the end of the
table. -/
def OnTable (machine : Machine) : Prop :=
  machine.pc ∈ machine.program.offsets ∨ machine.pc = machine.program.size ∨
    Scans machine.program.code 0 machine.program.offsets.toList machine.pc

/-- A decoded instruction is as long as the table takes it to be. -/
theorem instructionSize?_of_decode {machine : Machine} {opcode : Opcode}
    (hdecode : machine.decode = .ok opcode) :
    instructionSize? machine.program.code machine.pc = some opcode.size := by
  obtain ⟨hfits, hopcode, -⟩ := decode_iff.mp hdecode
  have hpos : 0 < opcode.size := by unfold Opcode.size; omega
  have hfits : machine.pc + opcode.size ≤ machine.program.code.size := hfits
  have hlt : machine.pc < machine.program.code.size := by omega
  simp only [operandByte, Nat.add_zero, Array.getD_eq_getD_getElem?, hlt,
    Array.getElem?_eq_getElem, Option.getD_some] at hopcode
  simp only [instructionSize?, hlt, Array.getElem?_eq_getElem, hopcode, hfits, ↓reduceIte]

/-- A decoded instruction of a machine that stands on its table is one of the table. -/
theorem mem_offsets_of_decode {machine : Machine} {opcode : Opcode} (htable : machine.OnTable)
    (hdecode : machine.decode = .ok opcode) : machine.pc ∈ machine.program.offsets := by
  have hsize := instructionSize?_of_decode hdecode
  rcases htable with hmem | hend | hstop
  · exact hmem
  · have hbounds := instructionSize?_bounds hsize
    rw [hend, Cluster.size] at hbounds
    omega
  · rw [hstop.size_of_stop] at hsize
    cases hsize

/-- A completed instruction leads from a position of the table to another one. -/
theorem OnTable.of_attempt {device : Device σ} {machine next : Machine} {host after : σ}
    (htable : machine.OnTable) (hattempt : machine.attempt device host = (.ok next, after)) :
    next.OnTable := by
  obtain ⟨opcode, hdecode, hcompletes⟩ := exists_completes_of_attempt hattempt
  unfold OnTable
  rw [hcompletes.program]
  rcases hcompletes.pc with hnext | hend | ⟨hlabel, htarget⟩
  · -- behind an instruction of the table there is the next one, or the scan has stopped
    obtain ⟨stop, hscans⟩ := machine.program.exists_scans
    have hmem := mem_offsets_of_decode htable hdecode
    obtain ⟨size, hsize, hbehind, -⟩ := hscans.size_of_mem (Array.mem_toList_iff.mpr hmem)
    rw [instructionSize?_of_decode hdecode, Option.some.injEq] at hsize
    subst hsize
    rw [hnext]
    rcases hbehind with hmore | hstop
    · exact .inl (Array.mem_toList_iff.mp hmore)
    · rw [hstop]
      exact .inr (.inr hscans)
  · exact .inr (.inl hend)
  · rw [htarget]
    have hsound := (isTarget_of_decode hdecode hlabel).2
    exact (Cluster.isTarget_iff.mp hsound).symm.imp_right .inl

/-- The start of a program is on its table. -/
theorem onTable_of_start {machine : Machine} (hstart : machine.pc = 0) : machine.OnTable := by
  obtain ⟨stop, hscans⟩ := machine.program.exists_scans
  unfold OnTable
  rw [hstart]
  rcases hscans.start_mem with hmem | hstop
  · exact .inl (Array.mem_toList_iff.mp hmem)
  · exact .inr (.inr (hstop ▸ hscans))

/-- A reachable machine stands on its table, whatever programs were loaded. -/
theorem Reachable.onTable {registers capacity : Int} {loads : Cluster → Prop} {machine : Machine}
    (hreachable : Reachable registers capacity loads machine) : machine.OnTable := by
  induction hreachable with
  | new hnew =>
      obtain rfl := eq_of_new hnew
      exact onTable_of_start rfl
  | changed _ hchanges ih =>
      rcases hchanges.outcome with ⟨program, -, rfl⟩ | ⟨σ, device, count, host, rfl⟩ | rfl |
        ⟨values, stack, rfl, -⟩
      · exact onTable_of_start rfl
      · exact (runs_runSteps device count _ host).preserves
          (fun _ hattempt htable => htable.of_attempt hattempt) ih
      · exact onTable_of_start rfl
      · exact ih

end Octet.Machine
