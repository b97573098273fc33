import Octet.Assembler
import Octet.Proofs.Source.Program

/-! # What the assembler gives out

Between two sources an assembler holds nothing of a program, however it was used
before. So a source that it accepts is turned into the program of its statements,
and that program is valid for the machines that the assembler was made for.
-/

namespace Octet

namespace Assembler

/-- The assemblers that one can come to from a new one for a number of registers. -/
inductive Reachable (registers : Int) : Assembler → Prop
  | new {assembler : Assembler} (hnew : Assembler.new registers [] = .ok assembler) :
      Reachable registers assembler
  | verbose {assembler : Assembler} (hreachable : Reachable registers assembler) (verbose : Bool) :
      Reachable registers { assembler with verbose }
  | assembled {assembler : Assembler} (hreachable : Reachable registers assembler) (name : String)
      (source : Source) : Reachable registers (assembler.assemble name source).assembler

/-- The assembler holds nothing of a program. -/
structure Ready (registers : Nat) (assembler : Assembler) : Prop where
  registers : assembler.registers = registers
  code : assembler.builder.code = #[]
  labels : assembler.labels = .empty

/-- An assembler is ready whenever it can be used. -/
theorem Reachable.ready {registers : Int} {assembler : Assembler}
    (hreachable : Reachable registers assembler) : assembler.Ready registers.toNat := by
  induction hreachable with
  | new hnew =>
      unfold Assembler.new at hnew
      split at hnew
      next => cases hnew
      next =>
        obtain rfl := Except.ok.inj hnew
        exact ⟨rfl, rfl, rfl⟩
  | verbose _ _ ih => exact ⟨ih.registers, ih.code, ih.labels⟩
  | assembled _ name source ih =>
      simp only [assemble]
      split <;> split <;> exact ⟨ih.registers, rfl, rfl⟩

/-- A source that is accepted gives the program of its statements. -/
theorem isProgram_of_assemble {registers : Nat} {assembler : Assembler}
    (hready : assembler.Ready registers) {name : String} {source : Source} {cluster : Cluster}
    (hresult : (assembler.assemble name source).result = .ok cluster) :
    IsProgram registers source.parse.statements cluster.code ∧
      cluster = Cluster.ofCode cluster.code := by
  obtain ⟨count, verbose, builder, labels⟩ := assembler
  obtain ⟨rfl, hcode, rfl⟩ : count = registers ∧ builder.code = #[] ∧ labels = .empty :=
    ⟨hready.registers, hready.code, hready.labels⟩
  have hemitted := isProgram_emitStatements count hcode (wellFormed_of_parse source)
  simp only [assemble] at hresult
  split at hresult
  next =>
    split at hresult
    next hempty =>
      obtain rfl := Except.ok.inj hresult
      exact ⟨hemitted (by simpa [maxDiagnostics] using hempty), rfl⟩
    next => cases hresult
  next hparsed =>
    split at hresult
    next hempty => exact absurd (by simpa [maxDiagnostics] using hempty) hparsed
    next => cases hresult

end Assembler

/-- A source that puts two values on the stack. -/
def twoPushes : Source := .ofBytes (utf8Bytes "push 7\npush 8") none

theorem assemble_twoPushes :
    ((⟨1, false, .empty, .empty⟩ : Assembler).assemble "" twoPushes).result =
      .ok (.ofCode #[28, 7, 28, 8]) := by
  have hcode : ((⟨1, false, .empty, .empty⟩ : Assembler).assemble "" twoPushes).result.map
      Cluster.code = .ok #[28, 7, 28, 8] := by
    decide +kernel
  obtain ⟨cluster, hresult, hbytes⟩ := map_eq_ok_iff.mp hcode
  rw [hresult, (Assembler.isProgram_of_assemble ⟨rfl, rfl, rfl⟩ hresult).2, hbytes]

/-- A source that is accepted gives a valid program: the table covers its bytes and has an entry for
each instruction of the source, it is no longer than branches can address, and each register and
branch target in it is there. So no machine with as many registers that only this program is loaded
into ever reports a cause of decoding, whatever the host does to it, unless the host reports such a
cause itself. -/
theorem assemble_valid {registers : Int} {assembler : Assembler}
    (hassembler : assembler.Reachable registers) {name : String} {source : Source}
    {cluster : Cluster} (hresult : (assembler.assemble name source).result = .ok cluster) :
    (cluster.Covered ∧ cluster.count = (instructionsOf source.parse.statements).length ∧
      cluster.size ≤ maxClusterSize ∧
      ∀ offset ∈ cluster.offsets, ∀ opcode,
        Opcode.ofByte? (cluster.code.getD offset 0) = some opcode →
          ∀ operand ∈ operandPositions (offset + 1) opcode.operands,
            cluster.OperandSound registers.toNat operand) ∧
    ∀ (more capacity : Int) (machine : Machine), registers ≤ more →
      Machine.Reachable more capacity (· = cluster) machine →
        ∀ (σ : Type) (device : Device σ), device.NeverStatic →
          ∀ (fuel : Nat) (limit : Int) (host : σ) (failure : Failure),
            (machine.run device fuel limit host).ending = .failed failure →
              ¬ failure.IsStatic := by
  obtain ⟨hprogram, hcluster⟩ := Assembler.isProgram_of_assemble hassembler.ready hresult
  have hvalid : cluster.Valid registers.toNat := by
    rw [hcluster]
    exact hprogram.valid
  refine ⟨⟨hvalid.covered, ?_, hvalid.fits, hvalid.operands⟩, ?_⟩
  · rw [hcluster]
    exact hprogram.count
  · intro more capacity machine hmore hmachine σ device hdevice fuel limit host failure hfailed
    exact hmachine.not_isStatic (by omega) (fun program hprogram => hprogram ▸ hvalid) hdevice
      hfailed

theorem Device.keeping_neverStatic : Device.keeping.NeverStatic := by
  constructor
  · rintro texts failure (hrefused | hbroken)
    · obtain rfl := Reply.refused.inj hrefused
      rintro ⟨cause, hmem, hroot⟩
      obtain rfl : Cause.endOfFile = cause := Failure.cause.inj hroot
      simp [staticCauses] at hmem
    · cases hbroken
  · rintro channel text texts failure (hrefused | hbroken)
    · cases hrefused
    · cases hbroken

/-- The program of two pushes fails on a stack for one value, but not for a reason that the
assembler could have known. -/
theorem assemble_valid_of_pushes :
    ∃ cluster failure,
      ((⟨1, false, .empty, .empty⟩ : Assembler).assemble "" twoPushes).result = .ok cluster ∧
      cluster.count = 2 ∧
      ((⟨cluster, 0, #[0], .new 1, .unset, 0⟩ : Machine).run Device.keeping 4 0 []).ending =
        .failed failure ∧ ¬ failure.IsStatic := by
  have hassembler : Assembler.Reachable 1 ⟨1, false, .empty, .empty⟩ := .new rfl
  obtain ⟨⟨-, hcount, -⟩, hruns⟩ := assemble_valid hassembler assemble_twoPushes
  have hstatements : (instructionsOf twoPushes.parse.statements).length = 2 := by decide +kernel
  have hfailed : ((⟨.ofCode #[28, 7, 28, 8], 0, #[0], .new 1, .unset, 0⟩ : Machine).run
      Device.keeping 4 0 []).ending = .failed (.runtime 2 28 (.cause .stackOverflow)) := by
    decide +kernel
  exact ⟨_, _, assemble_twoPushes, hcount.trans hstatements, hfailed,
    hruns 1 1 _ (by decide) (.changed (.new rfl) (.load _ rfl)) _ _ Device.keeping_neverStatic
      _ _ _ _ hfailed⟩

end Octet
