import Octet.Opcode
import Octet.SortedTable

/-! # Clusters

A cluster is a finished program: its bytes, and the table of the offsets where
its instructions start. The table ends at the first byte that does not start a
complete instruction, so arbitrary bytes make a cluster too. Look-up in the table
is by bisection.
-/

namespace Octet

/-- The largest program that branches can address. -/
def maxClusterSize : Nat := 65535

/-- The size of the complete instruction at offset `pc`, if there is one. -/
def instructionSize? (code : Array UInt8) (pc : Nat) : Option Nat :=
  match code[pc]? with
  | none => none
  | some byte =>
    match Opcode.ofByte? byte with
    | none => none
    | some opcode => if pc + opcode.size ≤ code.size then some opcode.size else none

theorem instructionSize?_bounds {code : Array UInt8} {pc size : Nat}
    (hsize : instructionSize? code pc = some size) : 0 < size ∧ pc + size ≤ code.size := by
  unfold instructionSize? at hsize
  split at hsize
  · simp at hsize
  · split at hsize
    · simp at hsize
    · split at hsize
      next opcode _ hfits =>
        simp only [Option.some.injEq] at hsize
        subst hsize
        exact ⟨by unfold Opcode.size; omega, hfits⟩
      next => simp at hsize

/-- The offsets of the instructions that follow one another from `pc` on, after those `found`. -/
def offsetsFrom (code : Array UInt8) (pc : Nat) (found : Array Nat) : Array Nat :=
  match _hsize : instructionSize? code pc with
  | none => found
  | some size => offsetsFrom code (pc + size) (found.push pc)
termination_by code.size - pc
decreasing_by
  have := instructionSize?_bounds _hsize
  omega

/-- The offsets of the instructions at the start of a program, up to the first byte that does
not start a complete one. -/
def instructionOffsets (code : Array UInt8) : Array Nat := offsetsFrom code 0 #[]

/-- A program and the table of its instructions. -/
structure Cluster where
  /-- The bytes of the program. -/
  code : Array UInt8
  /-- The offsets of its instructions. -/
  offsets : Array Nat
  /-- The table is the one of the program. -/
  offsets_eq : offsets = instructionOffsets code

namespace Cluster

/-- The cluster of some bytes. -/
def ofCode (code : Array UInt8) : Cluster := ⟨code, instructionOffsets code, rfl⟩

/-- The cluster without a byte. -/
def empty : Cluster := ofCode #[]

/-- The number of bytes. -/
def size (cluster : Cluster) : Nat := cluster.code.size

/-- The number of instructions before the first byte that starts none. -/
def count (cluster : Cluster) : Nat := cluster.offsets.size

/-- The first index of the table whose offset is not below `pc`. -/
def search (cluster : Cluster) (pc : Nat) : Nat :=
  lowerBound cluster.offsets pc 0 cluster.offsets.size

/-- Whether a branch may go to `pc`: an instruction of the table starts there, or the program ends
there. -/
def isTarget (cluster : Cluster) (pc : Nat) : Bool :=
  pc == cluster.size || cluster.offsets[cluster.search pc]? == some pc

/-- The index of the instruction at `pc`, or of the one that `pc` lies inside; the number of
instructions from the end of the last one on. -/
def indexAt (cluster : Cluster) (pc : Nat) : Nat :=
  if pc = 0 then 0
  else
    let index := cluster.search pc
    match cluster.offsets[index]? with
    | some offset => if offset = pc then index else index - 1
    | none =>
      match cluster.offsets.back? with
      | none => 0
      | some last =>
        if last + Opcode.sizeOfByte (cluster.code.getD last 0) ≤ pc then index else index - 1

/-- `isTarget` for any position; none before the program is a target. -/
def isTargetAt (cluster : Cluster) : Int → Bool
  | .ofNat pc => cluster.isTarget pc
  | .negSucc _ => false

/-- `indexAt` for any position; those before the program have the index of its start. -/
def indexOf (cluster : Cluster) : Int → Nat
  | .ofNat pc => cluster.indexAt pc
  | .negSucc _ => 0

/-- The offset of an instruction given by its index. -/
def offset? (cluster : Cluster) : Int → Option Nat
  | .ofNat index => cluster.offsets[index]?
  | .negSucc _ => none

end Cluster

end Octet
