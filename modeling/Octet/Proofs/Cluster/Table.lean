import Mathlib.Tactic.Common
import Octet.Cluster

/-! # The instruction table of a cluster

The table of a cluster is a scan of its bytes: instruction after instruction from
the first byte on, up to the first byte that starts no complete one. The scan is
unique, its offsets increase, and bisection therefore finds an offset exactly if it
is there. The branch targets of a cluster are the offsets of its table and its end.
-/

namespace Octet

/-- Where scanning finds a size, there is an opcode whose bytes fit. -/
theorem exists_opcode_of_instructionSize? {code : Array UInt8} {pc size : Nat}
    (hsize : instructionSize? code pc = some size) :
    ∃ opcode, Opcode.ofByte? (code.getD pc 0) = some opcode ∧ opcode.size = size ∧
      pc + opcode.size ≤ code.size := by
  unfold instructionSize? at hsize
  split at hsize
  next => cases hsize
  next byte hbyte =>
    split at hsize
    next => cases hsize
    next opcode hopcode =>
      split at hsize
      next hfits =>
        refine ⟨opcode, ?_, Option.some.inj hsize, hfits⟩
        rw [Array.getD_eq_getD_getElem?, hbyte]
        exact hopcode
      next => cases hsize

/-- The offsets of complete instructions that follow one another from `pc` on; the first byte that
starts none is at `stop`. -/
inductive Scans (code : Array UInt8) : Nat → List Nat → Nat → Prop
  | stop {pc : Nat} (hnone : instructionSize? code pc = none) : Scans code pc [] pc
  | next {pc size stop : Nat} {offsets : List Nat} (hsize : instructionSize? code pc = some size)
      (hrest : Scans code (pc + size) offsets stop) : Scans code pc (pc :: offsets) stop

/-- The loop adds what scanning finds to what was found before. -/
theorem exists_scans_offsetsFrom (code : Array UInt8) (pc : Nat) (found : Array Nat) :
    ∃ offsets stop, (offsetsFrom code pc found).toList = found.toList ++ offsets ∧
      Scans code pc offsets stop := by
  fun_induction offsetsFrom code pc found with
  | case1 pc found hnone => exact ⟨[], pc, by simp, .stop hnone⟩
  | case2 pc found size hsize ih =>
      obtain ⟨offsets, stop, hoffsets, hscans⟩ := ih
      exact ⟨pc :: offsets, stop, by simp [hoffsets], .next hsize hscans⟩

/-- The table of a cluster is found by scanning its code. -/
theorem Cluster.exists_scans (cluster : Cluster) :
    ∃ stop, Scans cluster.code 0 cluster.offsets.toList stop := by
  obtain ⟨offsets, stop, hoffsets, hscans⟩ := exists_scans_offsetsFrom cluster.code 0 #[]
  refine ⟨stop, ?_⟩
  rw [cluster.offsets_eq]
  simpa [instructionOffsets, hoffsets] using hscans

namespace Scans

variable {code : Array UInt8} {pc stop : Nat} {offsets : List Nat}

/-- Scanning has one result. -/
theorem unique {other : Nat} {others : List Nat} (hscans : Scans code pc offsets stop)
    (hother : Scans code pc others other) : offsets = others ∧ stop = other := by
  induction hscans generalizing others with
  | stop hnone =>
      cases hother with
      | stop => exact ⟨rfl, rfl⟩
      | next hsize => simp [hnone] at hsize
  | next hsize hrest ih =>
      cases hother with
      | stop hnone => simp [hnone] at hsize
      | next hsame hothers =>
          obtain rfl := Option.some.inj (hsize.symm.trans hsame)
          obtain ⟨rfl, rfl⟩ := ih hothers
          exact ⟨rfl, rfl⟩

theorem le_stop (hscans : Scans code pc offsets stop) : pc ≤ stop := by
  induction hscans with
  | stop => exact Nat.le_refl _
  | next hsize hrest ih => omega

theorem le_of_mem (hscans : Scans code pc offsets stop) {offset : Nat} (hmem : offset ∈ offsets) :
    pc ≤ offset := by
  induction hscans with
  | stop => cases hmem
  | next hsize hrest ih =>
      rcases List.mem_cons.mp hmem with rfl | hlater
      · exact Nat.le_refl _
      · have := ih hlater
        omega

/-- The offsets of a scan increase. -/
theorem increasing (hscans : Scans code pc offsets stop) : offsets.Pairwise (· < ·) := by
  induction hscans with
  | stop => exact .nil
  | next hsize hrest ih =>
      refine .cons ?_ ih
      intro offset hmem
      have hpos := (instructionSize?_bounds hsize).1
      have hle := hrest.le_of_mem hmem
      omega

/-- The instruction at an offset of the scan ends at the next offset, or where the scan stops. -/
theorem size_of_mem (hscans : Scans code pc offsets stop) {offset : Nat}
    (hmem : offset ∈ offsets) :
    ∃ size, instructionSize? code offset = some size ∧
      (offset + size ∈ offsets ∨ offset + size = stop) ∧ offset + size ≤ stop := by
  induction hscans with
  | stop => cases hmem
  | @next pc size stop offsets hsize hrest ih =>
      rcases List.mem_cons.mp hmem with rfl | hlater
      · refine ⟨size, hsize, ?_, hrest.le_stop⟩
        cases hrest with
        | stop => exact .inr rfl
        | next => exact .inl (List.mem_cons_of_mem _ List.mem_cons_self)
      · obtain ⟨found, hfound, hnext, hle⟩ := ih hlater
        exact ⟨found, hfound, hnext.imp_left (List.mem_cons_of_mem _), hle⟩

/-- The instructions of a scan do not overlap. -/
theorem le_or_le_of_mem (hscans : Scans code pc offsets stop) {offset other size : Nat}
    (hmem : offset ∈ offsets) (hsize : instructionSize? code offset = some size)
    (hother : other ∈ offsets) : other ≤ offset ∨ offset + size ≤ other := by
  induction hscans with
  | stop => cases hmem
  | @next pc first stop offsets hfirst hrest ih =>
      rcases List.mem_cons.mp hmem with rfl | hlater
      · rcases List.mem_cons.mp hother with rfl | hbehind
        · exact .inl (Nat.le_refl _)
        · obtain rfl : size = first := Option.some.inj (hsize.symm.trans hfirst)
          exact .inr (hrest.le_of_mem hbehind)
      · rcases List.mem_cons.mp hother with rfl | hbehind
        · have := hrest.le_of_mem hlater
          exact .inl (by omega)
        · exact ih hlater hbehind

theorem start_mem (hscans : Scans code pc offsets stop) : pc ∈ offsets ∨ pc = stop := by
  cases hscans with
  | stop => exact .inr rfl
  | next => exact .inl List.mem_cons_self

/-- Every byte before the end of a scan belongs to one of its instructions. -/
theorem exists_mem_of_lt (hscans : Scans code pc offsets stop) {position : Nat}
    (hle : pc ≤ position) (hlt : position < stop) :
    ∃ offset ∈ offsets, ∃ size, instructionSize? code offset = some size ∧
      offset ≤ position ∧ position < offset + size := by
  induction hscans with
  | stop => omega
  | @next pc size stop offsets hsize hrest ih =>
      by_cases hinside : position < pc + size
      · exact ⟨pc, List.mem_cons_self, size, hsize, hle, hinside⟩
      · obtain ⟨offset, hmem, hfound⟩ := ih (by omega) hlt
        exact ⟨offset, List.mem_cons_of_mem _ hmem, hfound⟩

theorem size_of_stop (hscans : Scans code pc offsets stop) : instructionSize? code stop = none := by
  induction hscans with
  | stop hnone => exact hnone
  | next hsize hrest ih => exact ih

theorem stop_le (hscans : Scans code pc offsets stop) (hle : pc ≤ code.size) :
    stop ≤ code.size := by
  induction hscans with
  | stop => exact hle
  | next hsize hrest ih => exact ih (instructionSize?_bounds hsize).2

end Scans

/-! ### Bisection -/

/-- Bisection splits an increasing table: what comes before the result is below the value, and what
comes from it on is not. -/
theorem lowerBound_spec {table : Array Nat} (hincreasing : table.toList.Pairwise (· < ·))
    (value low high : Nat) (hle : low ≤ high) (hhigh : high ≤ table.size) :
    (low ≤ lowerBound table value low high ∧ lowerBound table value low high ≤ high) ∧
      ∀ index entry, low ≤ index → index < high → table[index]? = some entry →
        (index < lowerBound table value low high ↔ entry < value) := by
  have hmonotone {first second left right : Nat} (hlt : first < second)
      (hleft : table[first]? = some left) (hright : table[second]? = some right) :
      left < right := by
    obtain ⟨hfirst, rfl⟩ := Array.getElem?_eq_some_iff.mp hleft
    obtain ⟨hsecond, rfl⟩ := Array.getElem?_eq_some_iff.mp hright
    exact List.pairwise_iff_getElem.mp hincreasing first second (by simpa using hfirst)
      (by simpa using hsecond) hlt
  have hgetD {index : Nat} (hlt : index < table.size) :
      table[index]? = some (table.getD index 0) := by
    simp [hlt]
  -- either half keeps the claim, and the entries of the other half are on one side of the middle
  fun_induction lowerBound table value low high with
  | case1 low high hlt middle hbelow ih =>
      have hmiddle := hgetD (by omega : middle < table.size)
      obtain ⟨hbounds, hsplit⟩ := ih (by omega) hhigh
      refine ⟨by omega, ?_⟩
      intro index entry hlow hindex hentry
      rcases Nat.lt_trichotomy index middle with hbefore | rfl | hafter
      · have := hmonotone hbefore hentry hmiddle
        omega
      · rw [hmiddle, Option.some.injEq] at hentry
        omega
      · exact hsplit index entry (by omega) hindex hentry
  | case2 low high hlt middle hnot ih =>
      have hmiddle := hgetD (by omega : middle < table.size)
      obtain ⟨hbounds, hsplit⟩ := ih (by omega) (by omega)
      refine ⟨by omega, ?_⟩
      intro index entry hlow hindex hentry
      rcases Nat.lt_trichotomy index middle with hbefore | rfl | hafter
      · exact hsplit index entry hlow hbefore hentry
      · rw [hmiddle, Option.some.injEq] at hentry
        omega
      · have := hmonotone hafter hmiddle hentry
        omega
  | case3 low high hnot => exact ⟨by omega, fun index _ hlow hindex => by omega⟩

namespace Cluster

/-- Look-up in the table of a cluster finds an offset exactly if it is there. -/
theorem search_iff {cluster : Cluster} {pc : Nat} :
    cluster.offsets[cluster.search pc]? = some pc ↔ pc ∈ cluster.offsets := by
  obtain ⟨stop, hscans⟩ := cluster.exists_scans
  obtain ⟨hbounds, hsplit⟩ := lowerBound_spec hscans.increasing pc 0 cluster.offsets.size
    (Nat.zero_le _) (Nat.le_refl _)
  constructor
  · exact Array.mem_of_getElem?
  · intro hmem
    obtain ⟨index, hindex⟩ := Array.mem_iff_getElem?.mp hmem
    obtain ⟨hlt, -⟩ := Array.getElem?_eq_some_iff.mp hindex
    have hnot : ¬ index < cluster.search pc := fun hbefore =>
      Nat.lt_irrefl pc ((hsplit index pc (Nat.zero_le _) hlt hindex).mp hbefore)
    -- the entry at the result is not below `pc`, and the one of `pc` does not come before it
    have hsearch : cluster.search pc < cluster.offsets.size := by omega
    have hentry := (hsplit (cluster.search pc) cluster.offsets[cluster.search pc] (Nat.zero_le _)
      hsearch (Array.getElem?_eq_getElem hsearch)).not.mp (Nat.lt_irrefl _)
    rcases Nat.lt_or_eq_of_le (Nat.le_of_not_lt hnot) with hearlier | hsame
    · have hincreases := List.pairwise_iff_getElem.mp hscans.increasing (cluster.search pc) index
        (by simpa using hsearch) (by simpa using hlt) hearlier
      have hpc : cluster.offsets[index] = pc := (Array.getElem?_eq_some_iff.mp hindex).2
      simp only [Array.getElem_toList, hpc] at hincreases
      omega
    · rw [hsame]
      exact hindex

/-- A branch may go to the end of a program and to the instructions of its table. -/
theorem isTarget_iff {cluster : Cluster} {pc : Nat} :
    cluster.isTarget pc = true ↔ pc = cluster.size ∨ pc ∈ cluster.offsets := by
  simp [isTarget, search_iff]

/-- Every byte belongs to an instruction of the table. -/
def Covered (cluster : Cluster) : Prop :=
  ∀ position < cluster.size, ∃ offset ∈ cluster.offsets, ∃ size,
    instructionSize? cluster.code offset = some size ∧
      offset ≤ position ∧ position < offset + size

/-- The table covers a program exactly if its scan comes to the end. -/
theorem covered_iff {cluster : Cluster} :
    cluster.Covered ↔ Scans cluster.code 0 cluster.offsets.toList cluster.size := by
  constructor
  · intro hcovered
    obtain ⟨stop, hscans⟩ := cluster.exists_scans
    rcases Nat.lt_or_eq_of_le (hscans.stop_le (Nat.zero_le _)) with hlt | hend
    · obtain ⟨offset, hmem, size, hsize, -, hinside⟩ := hcovered stop hlt
      obtain ⟨found, hfound, -, hle⟩ := hscans.size_of_mem (by simpa using hmem)
      rw [hsize, Option.some.injEq] at hfound
      omega
    · rw [Cluster.size, ← hend]
      exact hscans
  · intro hscans position hlt
    obtain ⟨offset, hmem, hfound⟩ := hscans.exists_mem_of_lt (Nat.zero_le _) hlt
    exact ⟨offset, by simpa using hmem, hfound⟩

/-- The table of some bytes is found by any scan that comes to their end, and then covers them. -/
theorem offsets_of_scans {code : Array UInt8} {offsets : List Nat}
    (hscans : Scans code 0 offsets code.size) :
    (ofCode code).offsets.toList = offsets ∧ (ofCode code).Covered := by
  obtain ⟨stop, htable⟩ := (ofCode code).exists_scans
  obtain ⟨hoffsets, hstop⟩ := htable.unique hscans
  refine ⟨hoffsets, covered_iff.mpr ?_⟩
  rw [hstop] at htable
  exact htable

end Cluster

end Octet
