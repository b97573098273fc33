import Octet.Proofs.Source.Layout

/-! # What a cluster answers about its instructions

The table of a cluster can be told from its bytes without building it: it starts at the
first byte, each instruction stands where the one before it ends, and where the last
one ends no further instruction stands. There is one such table for every program.
Its queries are about that table alone: which positions a branch may go to, how many
instructions have ended by a position, and where the instruction of an index stands.
-/

namespace Octet

/-! ### Tables -/

/-- The instruction with this opcode stands at `pc`, with all its bytes. -/
def WholeAt (code : Array UInt8) (pc : Nat) (opcode : Opcode) : Prop :=
  code[pc]? = some opcode.toByte ∧ pc + opcode.size ≤ code.size

/-- Where the last instruction of a table ends; the start of the program if there is none. -/
def EndsAt (code : Array UInt8) (offsets : List Nat) (stop : Nat) : Prop :=
  (offsets = [] ∧ stop = 0) ∨
    ∃ last opcode, offsets.getLast? = some last ∧ WholeAt code last opcode ∧
      stop = last + opcode.size

/-- The offsets are those of the longest run of whole instructions at the start of a program. -/
structure IsTable (code : Array UInt8) (offsets : List Nat) : Prop where
  start : ∀ offset ∈ offsets.head?, offset = 0
  whole : ∀ offset ∈ offsets, ∃ opcode, WholeAt code offset opcode
  /-- An instruction stands where the one before it ends. -/
  adjacent : ∀ {index offset next opcode}, offsets[index]? = some offset →
    offsets[index + 1]? = some next → WholeAt code offset opcode → next = offset + opcode.size
  increasing : offsets.Pairwise (· < ·)
  maximal : ∀ stop, EndsAt code offsets stop → ∀ opcode, ¬ WholeAt code stop opcode

/-- There is a whole instruction where its opcode is and its bytes fit. -/
theorem wholeAt_iff {code : Array UInt8} {pc : Nat} {opcode : Opcode} :
    WholeAt code pc opcode ↔
      Opcode.ofByte? (code.getD pc 0) = some opcode ∧ pc + opcode.size ≤ code.size := by
  refine and_congr_left fun hfits => ?_
  have hlt : pc < code.size := by
    have : 0 < opcode.size := by
      unfold Opcode.size
      omega
    omega
  simp only [Array.getElem?_eq_getElem hlt, Array.getD, hlt, ↓reduceDIte, Option.some.injEq,
    Array.getInternal_eq_getElem]
  refine ⟨fun hbyte => ?_, fun hopcode => (toByte_of_ofByte? hopcode).symm⟩
  rw [hbyte, ofByte?_toByte]

theorem WholeAt.instructionSize? {code : Array UInt8} {pc : Nat} {opcode : Opcode}
    (hwhole : WholeAt code pc opcode) : instructionSize? code pc = some opcode.size := by
  obtain ⟨hbyte, hfits⟩ := hwhole
  simp only [Octet.instructionSize?, hbyte, ofByte?_toByte, hfits, ↓reduceIte]

theorem exists_wholeAt {code : Array UInt8} {pc size : Nat}
    (hsize : instructionSize? code pc = some size) :
    ∃ opcode, WholeAt code pc opcode ∧ opcode.size = size := by
  obtain ⟨opcode, hopcode, rfl, hfits⟩ := exists_opcode_of_instructionSize? hsize
  exact ⟨opcode, wholeAt_iff.mpr ⟨hopcode, hfits⟩, rfl⟩

/-- A program has one table. -/
theorem IsTable.unique {code : Array UInt8} {offsets others : List Nat}
    (htable : IsTable code offsets) (hother : IsTable code others) : offsets = others := by
  -- from entry to entry: where one table goes on there is an instruction, so the other one does not
  -- end there
  have hgoes {table rest : List Nat} (htable : IsTable code table) (hrest : IsTable code rest)
      {index offset next : Nat} (hoffset : table[index]? = some offset)
      (hsame : rest[index]? = some offset) (hnext : table[index + 1]? = some next) :
      rest[index + 1]? = some next := by
    obtain ⟨opcode, hopcode⟩ := htable.whole offset (List.mem_of_getElem? hoffset)
    have hadjacent := htable.adjacent hoffset hnext hopcode
    cases hgone : rest[index + 1]? with
    | some found => rw [hrest.adjacent hsame hgone hopcode, hadjacent]
    | none =>
        have hlast : rest.getLast? = some offset := by
          have hle := List.getElem?_eq_none_iff.mp hgone
          have hlt := (List.getElem?_eq_some_iff.mp hsame).1
          rw [List.getLast?_eq_getElem?, show rest.length - 1 = index by omega, hsame]
        obtain ⟨other, hfound⟩ := htable.whole next (List.mem_of_getElem? hnext)
        rw [hadjacent] at hfound
        exact absurd hfound (hrest.maximal _ (.inr ⟨offset, opcode, hlast, hopcode, rfl⟩) other)
  have hstarts {table rest : List Nat} (htable : IsTable code table) (hrest : IsTable code rest)
      {offset : Nat} (hoffset : table[0]? = some offset) : rest[0]? = some offset := by
    have hzero := htable.start offset (by rwa [List.head?_eq_getElem?])
    cases hgone : rest[0]? with
    | some found => rw [hzero, hrest.start found (by rwa [List.head?_eq_getElem?])]
    | none =>
        have hempty : rest = [] := by simpa using hgone
        obtain ⟨opcode, hfound⟩ := htable.whole offset (List.mem_of_getElem? hoffset)
        rw [hzero] at hfound
        exact absurd hfound (hrest.maximal 0 (.inl ⟨hempty, rfl⟩) opcode)
  apply List.ext_getElem?
  intro index
  induction index with
  | zero => exact Option.ext fun offset => ⟨hstarts htable hother, hstarts hother htable⟩
  | succ index ih =>
      cases hoffset : offsets[index]? with
      | none =>
          have hle := List.getElem?_eq_none_iff.mp hoffset
          have hless := List.getElem?_eq_none_iff.mp (ih ▸ hoffset)
          rw [List.getElem?_eq_none (by omega), List.getElem?_eq_none (by omega)]
      | some offset =>
          have hsame : others[index]? = some offset := ih ▸ hoffset
          exact Option.ext fun next =>
            ⟨hgoes htable hother hoffset hsame, hgoes hother htable hsame hoffset⟩

namespace Scans

variable {code : Array UInt8} {pc stop : Nat} {offsets : List Nat}

theorem head_eq (hscans : Scans code pc offsets stop) : ∀ offset ∈ offsets.head?, offset = pc := by
  cases hscans with
  | stop => simp
  | next => simp

theorem next_eq (hscans : Scans code pc offsets stop) {index offset next size : Nat}
    (hoffset : offsets[index]? = some offset) (hnext : offsets[index + 1]? = some next)
    (hsize : instructionSize? code offset = some size) : next = offset + size := by
  induction hscans generalizing index with
  | stop => simp at hoffset
  | @next pc first stop offsets hfirst hrest ih =>
      cases index with
      | succ index => exact ih hoffset hnext
      | zero =>
          obtain rfl : pc = offset := by simpa using hoffset
          obtain rfl : first = size := Option.some.inj (hfirst.symm.trans hsize)
          refine hrest.head_eq next ?_
          rw [List.head?_eq_getElem?]
          simpa using hnext

theorem stop_eq (hscans : Scans code pc offsets stop) {last size : Nat}
    (hlast : offsets.getLast? = some last) (hsize : instructionSize? code last = some size) :
    stop = last + size := by
  induction hscans with
  | stop => simp at hlast
  | @next pc first stop offsets hfirst hrest ih =>
      cases hrest with
      | stop =>
          obtain rfl : pc = last := by simpa using hlast
          exact congrArg (pc + ·) (Option.some.inj (hfirst.symm.trans hsize))
      | next => exact ih (by simpa using hlast)

/-- What scanning from the start finds is a table. -/
theorem isTable (hscans : Scans code 0 offsets stop) : IsTable code offsets where
  start := hscans.head_eq
  whole := by
    intro offset hmem
    obtain ⟨size, hsize, -⟩ := hscans.size_of_mem hmem
    obtain ⟨opcode, hopcode, -⟩ := exists_wholeAt hsize
    exact ⟨opcode, hopcode⟩
  adjacent := fun hoffset hnext hopcode => hscans.next_eq hoffset hnext hopcode.instructionSize?
  increasing := hscans.increasing
  maximal := by
    have hstop := hscans.size_of_stop
    intro found hends opcode hopcode
    suffices hsame : found = stop by
      rw [hsame] at hopcode
      cases hstop.symm.trans hopcode.instructionSize?
    rcases hends with ⟨rfl, rfl⟩ | ⟨last, other, hlast, hother, rfl⟩
    · cases hscans
      rfl
    · exact (hscans.stop_eq hlast hother.instructionSize?).symm

end Scans

/-! ### Counting instructions -/

/-- Where the instruction at an offset ends. -/
def endOf (code : Array UInt8) (offset : Nat) : Nat :=
  offset + Opcode.sizeOfByte (code.getD offset 0)

/-- The number of instructions of a table that end at or before a position. -/
def endedBy (code : Array UInt8) (offsets : List Nat) (pc : Int) : Nat :=
  offsets.countP fun offset => (endOf code offset : Int) ≤ pc

/-- The further the position, the more instructions have ended. -/
theorem endedBy_mono (code : Array UInt8) (offsets : List Nat) {pc next : Int} (hle : pc ≤ next) :
    endedBy code offsets pc ≤ endedBy code offsets next := by
  refine List.countP_mono_left fun offset _ hended => ?_
  simp only [decide_eq_true_eq] at hended ⊢
  omega

theorem WholeAt.endOf {code : Array UInt8} {pc : Nat} {opcode : Opcode}
    (hwhole : WholeAt code pc opcode) : endOf code pc = pc + opcode.size := by
  simp only [Octet.endOf, Opcode.sizeOfByte, (wholeAt_iff.mp hwhole).1]

/-- If the selected entries are those before an index, the index is their number. -/
theorem countP_of_split {α : Type} {items : List α} {selects : α → Bool} {index : Nat}
    (hle : index ≤ items.length)
    (hsplit : ∀ position item, items[position]? = some item →
      (selects item = true ↔ position < index)) : items.countP selects = index := by
  have hfront : ∀ item ∈ items.take index, selects item = true := by
    intro item hmem
    obtain ⟨position, hposition⟩ := List.mem_iff_getElem?.mp hmem
    have hlt : position < index := by
      have := (List.getElem?_eq_some_iff.mp hposition).1
      simp only [List.length_take] at this
      omega
    rw [List.getElem?_take_of_lt hlt] at hposition
    exact (hsplit position item hposition).mpr hlt
  have hback : ∀ item ∈ items.drop index, ¬ selects item = true := by
    intro item hmem
    obtain ⟨position, hposition⟩ := List.mem_iff_getElem?.mp hmem
    rw [List.getElem?_drop] at hposition
    rw [hsplit _ item hposition]
    omega
  calc items.countP selects
      _ = (items.take index).countP selects + (items.drop index).countP selects := by
        rw [← List.countP_append, List.take_append_drop]
      _ = index := by
        rw [List.countP_eq_length.mpr hfront, List.countP_eq_zero.mpr hback, List.length_take]
        omega

namespace Cluster

variable {cluster : Cluster} {pc index offset next : Nat}

/-- The offsets of a cluster are the table of its code. -/
theorem isTable_offsets (cluster : Cluster) : IsTable cluster.code cluster.offsets.toList := by
  obtain ⟨stop, hscans⟩ := cluster.exists_scans
  exact hscans.isTable

theorem exists_wholeAt_of_getElem? (hoffset : cluster.offsets[index]? = some offset) :
    ∃ opcode, WholeAt cluster.code offset opcode :=
  cluster.isTable_offsets.whole offset (by simpa using Array.mem_of_getElem? hoffset)

theorem lt_endOf (hoffset : cluster.offsets[index]? = some offset) :
    offset < endOf cluster.code offset := by
  obtain ⟨opcode, hopcode⟩ := exists_wholeAt_of_getElem? hoffset
  rw [hopcode.endOf, Opcode.size]
  omega

/-- An instruction ends where the next one starts. -/
theorem endOf_eq (hoffset : cluster.offsets[index]? = some offset)
    (hnext : cluster.offsets[index + 1]? = some next) : endOf cluster.code offset = next := by
  obtain ⟨opcode, hopcode⟩ := exists_wholeAt_of_getElem? hoffset
  rw [← Array.getElem?_toList] at hoffset hnext
  rw [hopcode.endOf, cluster.isTable_offsets.adjacent hoffset hnext hopcode]

/-- An instruction ends before any later one starts. -/
theorem endOf_le {other : Nat} (hlt : index < other)
    (hoffset : cluster.offsets[index]? = some offset)
    (hnext : cluster.offsets[other]? = some next) : endOf cluster.code offset ≤ next := by
  obtain ⟨stop, hscans⟩ := cluster.exists_scans
  obtain ⟨opcode, hopcode⟩ := exists_wholeAt_of_getElem? hoffset
  have hincreases : offset < next := by
    obtain ⟨hfirst, rfl⟩ := Array.getElem?_eq_some_iff.mp hoffset
    obtain ⟨hsecond, rfl⟩ := Array.getElem?_eq_some_iff.mp hnext
    exact List.pairwise_iff_getElem.mp hscans.increasing index other (by simpa using hfirst)
      (by simpa using hsecond) hlt
  have hapart := hscans.le_or_le_of_mem (by simpa using Array.mem_of_getElem? hoffset)
    hopcode.instructionSize? (by simpa using Array.mem_of_getElem? hnext)
  rw [hopcode.endOf]
  omega

/-- A look-up splits the table at the position. -/
theorem search_spec (cluster : Cluster) (pc : Nat) :
    cluster.search pc ≤ cluster.offsets.size ∧ ∀ index offset,
      cluster.offsets[index]? = some offset → (index < cluster.search pc ↔ offset < pc) := by
  obtain ⟨stop, hscans⟩ := cluster.exists_scans
  obtain ⟨⟨-, hle⟩, hsplit⟩ := lowerBound_spec hscans.increasing pc 0 cluster.offsets.size
    (Nat.zero_le _) (Nat.le_refl _)
  refine ⟨hle, fun index offset hoffset => ?_⟩
  exact hsplit index offset (Nat.zero_le _) (Array.getElem?_eq_some_iff.mp hoffset).1 hoffset

/-- The instructions before the index of a position are those that have ended there. -/
theorem lt_indexAt_iff (hoffset : cluster.offsets[index]? = some offset) :
    index < cluster.indexAt pc ↔ endOf cluster.code offset ≤ pc := by
  obtain ⟨hle, hsplit⟩ := cluster.search_spec pc
  have hself := lt_endOf hoffset
  have hbelow := hsplit index offset hoffset
  have hlt := (Array.getElem?_eq_some_iff.mp hoffset).1
  by_cases hzero : pc = 0
  · simp only [indexAt, if_pos hzero]
    omega
  cases hfound : cluster.offsets[cluster.search pc]? with
  | some found =>
      simp only [indexAt, if_neg hzero, hfound]
      have hnot := (hsplit _ found hfound).not.mp (Nat.lt_irrefl _)
      rcases Nat.lt_trichotomy (index + 1) (cluster.search pc) with hbefore | hlast | hafter
      · -- the instruction ends where the next one starts, which is below the position too
        obtain ⟨next, hnext⟩ : ∃ next, cluster.offsets[index + 1]? = some next :=
          ⟨_, Array.getElem?_eq_getElem (by omega)⟩
        have hends := endOf_eq hoffset hnext
        have hpassed := (hsplit _ next hnext).mp hbefore
        split <;> omega
      · rw [← hlast] at hfound
        have hends := endOf_eq hoffset hfound
        split <;> omega
      · split <;> omega
  | none =>
      have hsearch : cluster.search pc = cluster.offsets.size := by
        have := Array.getElem?_eq_none_iff.mp hfound
        omega
      obtain ⟨last, hlast⟩ : ∃ last, cluster.offsets[cluster.offsets.size - 1]? = some last :=
        ⟨_, Array.getElem?_eq_getElem (by omega)⟩
      have hback : cluster.offsets.back? = some last := hlast
      simp only [indexAt, if_neg hzero, hfound, hback]
      change index < (if endOf cluster.code last ≤ pc then _ else _) ↔ _
      have hpassed := (hsplit _ last hlast).mp (by omega)
      by_cases hindex : index = cluster.offsets.size - 1
      · rw [hindex, hlast, Option.some.injEq] at hoffset
        subst hoffset
        split <;> omega
      · have hends := endOf_le (by omega) hoffset hlast
        have hover := lt_endOf hlast
        split <;> omega

theorem indexAt_le (cluster : Cluster) (pc : Nat) : cluster.indexAt pc ≤ cluster.count := by
  obtain ⟨hle, -⟩ := cluster.search_spec pc
  unfold indexAt count
  split
  · exact Nat.zero_le _
  · dsimp only
    repeat' split
    all_goals omega

/-- The index of a position is the number of instructions that end there or before it. -/
theorem indexOf_eq (cluster : Cluster) (pc : Int) :
    cluster.indexOf pc = endedBy cluster.code cluster.offsets.toList pc := by
  symm
  cases pc with
  | ofNat pc =>
      refine countP_of_split (cluster.indexAt_le pc) ?_
      intro index offset hoffset
      rw [Array.getElem?_toList] at hoffset
      rw [decide_eq_true_eq]
      exact Int.ofNat_le.trans (lt_indexAt_iff hoffset).symm
  | negSucc pc =>
      refine List.countP_eq_zero.mpr fun offset _ => ?_
      simp only [decide_eq_true_eq]
      omega

/-- The index of the position where an instruction starts is the one of the instruction. -/
theorem indexAt_of_getElem? (hoffset : cluster.offsets[index]? = some offset) :
    cluster.indexAt offset = index := by
  have hself := lt_endOf hoffset
  have hnot := (@lt_indexAt_iff cluster offset index offset hoffset).not.mpr (by omega)
  apply Nat.le_antisymm (Nat.le_of_not_lt hnot)
  apply Nat.le_of_not_lt
  intro hlt
  -- an instruction before this one has ended where this one starts
  have hbefore : cluster.indexAt offset < cluster.offsets.size :=
    Nat.lt_trans hlt (Array.getElem?_eq_some_iff.mp hoffset).1
  have hentry := Array.getElem?_eq_getElem hbefore
  exact Nat.lt_irrefl _ ((lt_indexAt_iff hentry).mpr (endOf_le hlt hentry hoffset))

/-- A branch may go to an instruction or to the end. -/
theorem isTargetAt_iff (cluster : Cluster) (pc : Int) :
    cluster.isTargetAt pc = true ↔
      pc = cluster.size ∨ ∃ offset ∈ cluster.offsets, pc = offset := by
  cases pc with
  | ofNat pc =>
      rw [isTargetAt, isTarget_iff, Int.ofNat_eq_natCast, Int.natCast_inj]
      simp only [Int.natCast_inj, exists_eq_right']
  | negSucc pc =>
      refine iff_of_false (by simp [isTargetAt]) ?_
      rintro (hsame | ⟨offset, -, hsame⟩) <;> omega

/-- The queries of a cluster are answered by a table, for every position and every index. -/
structure Answers (cluster : Cluster) (offsets : List Nat) : Prop where
  table : cluster.offsets.toList = offsets
  count : cluster.count = offsets.length
  target : ∀ pc : Int, cluster.isTargetAt pc = true ↔
    pc = cluster.size ∨ ∃ offset ∈ offsets, pc = offset
  index : ∀ pc : Int, cluster.indexOf pc = endedBy cluster.code offsets pc
  index_start : ∀ pc : Int, pc ≤ 0 → cluster.indexOf pc = 0
  index_mono : ∀ pc next : Int, pc ≤ next → cluster.indexOf pc ≤ cluster.indexOf next
  /-- An index has an offset exactly if it is that of an instruction. -/
  offset : ∀ index : Int, (cluster.offset? index).isSome ↔ 0 ≤ index ∧ index < cluster.count
  index_offset : ∀ (index : Int) (offset : Nat), cluster.offset? index = some offset →
    offsets[index.toNat]? = some offset ∧ cluster.indexOf offset = index

/-- The bytes of a program have one table, which is that of their cluster and answers its
queries. -/
theorem answers_of_table (code : Array UInt8) :
    ∃ offsets, IsTable code offsets ∧ (∀ other, IsTable code other → other = offsets) ∧
      (ofCode code).Answers offsets := by
  have htable : IsTable code (ofCode code).offsets.toList := (ofCode code).isTable_offsets
  refine ⟨_, htable, fun other hother => hother.unique htable, ?_⟩
  constructor
  case table => rfl
  case count => simp [count]
  case target => simpa using (ofCode code).isTargetAt_iff
  case index => exact (ofCode code).indexOf_eq
  case index_start =>
    intro pc hle
    cases pc with
    | ofNat pc =>
        obtain rfl : pc = 0 := Nat.le_zero.mp (Int.ofNat_le.mp hle)
        rfl
    | negSucc pc => rfl
  case index_mono =>
    intro pc next hle
    rw [indexOf_eq, indexOf_eq]
    exact endedBy_mono _ _ hle
  case offset =>
    rintro (index | index)
    · simp [offset?, count]
    · exact iff_of_false (by simp [offset?]) (by omega)
  case index_offset =>
    rintro (index | index) offset hoffset
    · refine ⟨by simpa [offset?] using hoffset, ?_⟩
      exact congrArg Int.ofNat (indexAt_of_getElem? hoffset)
    · cases hoffset

end Cluster

end Octet
