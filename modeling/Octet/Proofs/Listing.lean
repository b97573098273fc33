import Octet.Proofs.Machine.Atomicity
import Octet.Proofs.Machine.Position
import Octet.Proofs.Source.Wording
import Octet.Proofs.Writer

/-! # Three ways through a program

The table of a cluster, the listing of a program and a machine each find the
instructions of a program on their own. The table stops at the first byte that starts no
complete instruction, the listing shows that byte and goes on behind it, and a machine
cannot read it. Up to that byte all three agree, and at any single position the listing
and the machine agree on whether there is an instruction and on where it ends.
-/

namespace Octet

/-! ### Lines -/

/-- A position, right-aligned in six places behind at least one blank. -/
def alignedOffset (offset : Nat) : String :=
  String.ofList (List.replicate (max 1 (6 - (toString offset).length)) ' ') ++ toString offset

/-- The pieces that show the instruction at an offset, or the byte there. -/
def piecesAt (code : Array UInt8) (offset : Nat) : List String :=
  (disassembleAt? code offset).elim [] Prod.fst

/-- The text that shows the instruction at an offset, or the byte there. -/
def shownAt (code : Array UInt8) (offset : Nat) : String := String.join (piecesAt code offset)

/-- The line of an offset, without its end. -/
def lineAt (code : Array UInt8) (offset : Nat) : String :=
  alignedOffset offset ++ "\t" ++ shownAt code offset

theorem offsetColumn_eq (offset : Nat) : offsetColumn offset = alignedOffset offset ++ "\t" := by
  have hblanks : max 1 (6 - (toString offset).length) =
      6 - (" " ++ toString offset).length + 1 := by
    rw [String.length_append]
    have : " ".length = 1 := rfl
    omega
  apply String.toList_inj.mp
  simp only [offsetColumn, alignedOffset, hblanks, List.replicate_succ', String.toList_append,
    String.toList_ofList, List.append_assoc]
  rfl

/-- A complete instruction is shown by its name and its operands, and the walk over the operands ends
behind its last byte. -/
theorem disassembleAt?_of_instruction {code : Array UInt8} {pc size : Nat}
    (hsize : instructionSize? code pc = some size) :
    ∃ opcode, Opcode.ofByte? (code.getD pc 0) = some opcode ∧ opcode.size = size ∧
      disassembleAt? code pc =
        some (opcode.name :: (operandPieces code (pc + 1) " " opcode.operands).1, pc + size) := by
  obtain ⟨opcode, hopcode, rfl, hfits⟩ := exists_opcode_of_instructionSize? hsize
  have hbounds := instructionSize?_bounds hsize
  have hbyte : code[pc]? = some (code.getD pc 0) := by
    simp [show pc < code.size by omega]
  have hnext : (operandPieces code (pc + 1) " " opcode.operands).2 = pc + opcode.size := by
    rw [operandPieces_next, Opcode.size, Nat.add_assoc]
  refine ⟨opcode, hopcode, rfl, ?_⟩
  simp only [disassembleAt?, hbyte, Option.map_some, instructionPieces, hopcode,
    if_neg (Nat.not_lt.mpr hfits), hnext]

/-- A byte that starts no instruction is shown as it is. -/
theorem disassembleAt?_of_stray {code : Array UInt8} {pc : Nat} (hlt : pc < code.size)
    (hnone : instructionSize? code pc = none) :
    disassembleAt? code pc =
      some (["??? 0x" ++ instructionPieces.hexByte (code.getD pc 0)], pc + 1) := by
  have hbyte : code[pc]? = some (code.getD pc 0) := by simp [hlt]
  cases hopcode : Opcode.ofByte? (code.getD pc 0) with
  | none => simp only [disassembleAt?, hbyte, Option.map_some, instructionPieces, hopcode]
  | some opcode =>
      have hcut : code.size < pc + opcode.size := by
        apply Nat.lt_of_not_le
        intro hfits
        simp only [instructionSize?, hbyte, hopcode, if_pos hfits] at hnone
        cases hnone
      simp only [disassembleAt?, hbyte, Option.map_some, instructionPieces, hopcode, if_pos hcut]

theorem shownAt_of_stray {code : Array UInt8} {pc : Nat} (hlt : pc < code.size)
    (hnone : instructionSize? code pc = none) :
    shownAt code pc = "??? 0x" ++ instructionPieces.hexByte (code.getD pc 0) := by
  simp [shownAt, piecesAt, disassembleAt?_of_stray hlt hnone]

/-- The text at a position says that there is no instruction exactly if there is none. -/
theorem unknown_iff {code : Array UInt8} {pc : Nat} (hlt : pc < code.size) :
    "???".toList <+: (shownAt code pc).toList ↔ instructionSize? code pc = none := by
  cases hsize : instructionSize? code pc with
  | none =>
      rw [shownAt_of_stray hlt hsize, String.toList_append]
      exact ⟨fun _ => rfl, fun _ => ⟨_, rfl⟩⟩
  | some size =>
      obtain ⟨opcode, -, -, hshown⟩ := disassembleAt?_of_instruction hsize
      obtain ⟨first, tail, hname, hfirst, -⟩ := opcode.exists_name
      refine ⟨fun hunknown => ?_, fun hnever => by cases hnever⟩
      simp only [shownAt, piecesAt, hshown, Option.elim_some, String.join_cons,
        String.toList_append, hname] at hunknown
      obtain rfl := (List.cons_prefix_cons.mp hunknown).1
      cases hfirst

/-- What is written to a writer for the instruction at a position, and the position behind it. -/
def WrittenAt (code : Array UInt8) (pc : Nat) (text : String) (next : Nat) : Prop :=
  ∀ {σ : Type} {writer : Writer σ}, writer.Accepts → ∀ target, ∃ outlet,
    disassembleTo? writer.noting code pc (.bare (target, [])) = some (next, outlet) ∧
      outlet.target.2 = utf8Bytes text

/-- A line shows what is there, and where the next one starts. -/
theorem writtenAt_of_disassembleAt? {code : Array UInt8} {pc next : Nat} {pieces : List String}
    (hline : disassembleAt? code pc = some (pieces, next)) :
    WrittenAt code pc (shownAt code pc) next := by
  intro σ writer haccepts target
  obtain ⟨-, htext⟩ :=
    Outlet.writeAll_bare_of_keeps (Writer.noting_keeps haccepts) pieces (target, [])
  refine ⟨_, by rw [disassembleTo?, hline]; rfl, htext.trans ?_⟩
  simp [shownAt, piecesAt, hline, utf8Bytes_join]

theorem newline_not_mem_decimal (number : Nat) : '\n' ∉ Nat.toDigits 10 number := by
  intro hmem
  exact absurd (isDigit_of_mem_decimal hmem) (by decide)

theorem newline_not_mem_operandText (code : Array UInt8) (position : Nat) (kind : OperandKind) :
    '\n' ∉ (operandText code position kind).toList := by
  cases kind <;> simpa [operandText] using newline_not_mem_decimal _

theorem newline_not_mem_operandPieces (code : Array UInt8) (position : Nat) {separator : String}
    (hseparator : '\n' ∉ separator.toList) (kinds : List OperandKind) :
    ∀ piece ∈ (operandPieces code position separator kinds).1, '\n' ∉ piece.toList := by
  induction kinds generalizing position separator with
  | nil => simp [operandPieces]
  | cons kind kinds ih =>
      refine List.forall_mem_cons.mpr ⟨hseparator, List.forall_mem_cons.mpr ⟨?_, ?_⟩⟩
      · exact newline_not_mem_operandText code position kind
      · exact ih _ (by decide)

theorem newline_not_mem_hexByte (byte : UInt8) :
    '\n' ∉ (instructionPieces.hexByte byte).toList := by
  have hdigit : ∀ value < 16, '\n' ≠ Nat.digitChar value := by decide
  have hbyte := byte.toNat_lt
  simp only [instructionPieces.hexByte, String.toList_ofList, List.mem_cons, List.not_mem_nil,
    or_false, not_or]
  exact ⟨hdigit _ (by omega), hdigit _ (by omega)⟩

/-- No line contains a line break. -/
theorem newline_not_mem_piecesAt (code : Array UInt8) (offset : Nat) :
    ∀ piece ∈ piecesAt code offset, '\n' ∉ piece.toList := by
  unfold piecesAt
  by_cases hlt : offset < code.size
  · cases hsize : instructionSize? code offset with
    | none =>
        simpa [disassembleAt?_of_stray hlt hsize] using newline_not_mem_hexByte _
    | some size =>
        obtain ⟨opcode, -, -, hshown⟩ := disassembleAt?_of_instruction hsize
        rw [hshown]
        refine List.forall_mem_cons.mpr ⟨?_, ?_⟩
        · obtain ⟨first, tail, hname, hfirst, htail, -⟩ := opcode.exists_name
          rw [hname]
          rintro (_ | ⟨_, hmem⟩)
          · cases hfirst
          · cases htail _ hmem
        · exact newline_not_mem_operandPieces code _ (by decide) _
  · simp [disassembleAt?, hlt]

/-- A line does not hold the end of a line. -/
theorem newline_not_mem_lineAt (code : Array UInt8) (offset : Nat) :
    '\n' ∉ (lineAt code offset).toList := by
  simpa [lineAt, alignedOffset, shownAt, String.toList_join, newline_not_mem_decimal offset] using
    newline_not_mem_piecesAt code offset

/-! ### Listings -/

/-- How a listing goes through a program from `pc` on: it has a line for each of the offsets, and
each line starts where the one before it has ended. -/
inductive Lists (code : Array UInt8) : Nat → List Nat → Prop
  | done {pc : Nat} (hend : disassembleAt? code pc = none) : Lists code pc []
  | line {pc next : Nat} {pieces : List String} {offsets : List Nat}
      (hline : disassembleAt? code pc = some (pieces, next)) (hrest : Lists code next offsets) :
      Lists code pc (pc :: offsets)

/-- The pieces of a line with its end. -/
def linePieces (code : Array UInt8) (offset : Nat) : List String :=
  offsetColumn offset :: piecesAt code offset ++ ["\n"]

/-- A line of a listing is the line of its offset. -/
theorem join_linePieces (code : Array UInt8) (offset : Nat) :
    String.join (linePieces code offset) = lineAt code offset ++ "\n" := by
  simp [linePieces, lineAt, shownAt, offsetColumn_eq, String.append_assoc]

/-- The loop lists one line after the other, from where it starts to the end. -/
theorem exists_lists_listingFrom (code : Array UInt8) (pc : Nat) (done : List (List String)) :
    ∃ offsets, Lists code pc offsets ∧
      listingFrom code pc done = done.reverse.flatten ++ offsets.flatMap (linePieces code) := by
  fun_induction listingFrom code pc done with
  | case1 pc done hend => exact ⟨[], .done hend, by simp⟩
  | case2 pc done pieces next hline ih =>
      obtain ⟨offsets, hlists, hlisting⟩ := ih
      refine ⟨pc :: offsets, .line hline hlists, ?_⟩
      rw [hlisting]
      simp [linePieces, piecesAt, hline]

/-- A line is written, and the lines behind it unless one of its writes has failed. -/
theorem linesTo_of_line {σ : Type} {writer : Writer σ} {code : Array UInt8} {pc next : Nat}
    {outlet line : Outlet σ}
    (hline : disassembleTo? writer code pc (outlet.write writer (utf8Bytes (offsetColumn pc))).2 =
      some (next, line)) :
    linesTo writer code pc outlet =
      if (line.write writer (utf8Bytes "\n")).2.failure.isSome then
        (line.write writer (utf8Bytes "\n")).2
      else linesTo writer code next (line.write writer (utf8Bytes "\n")).2 := by
  rw [linesTo]
  split
  next hnone =>
    rw [hline] at hnone
    cases hnone
  next found after hfound =>
    obtain ⟨rfl, rfl⟩ := Prod.mk.inj (Option.some.inj (hline.symm.trans hfound))
    rfl

/-- Written line by line, with a stop behind a line that fails, the listing is written in the same
way as all of its pieces in a row: a writer that has failed is not asked for the rest of them. -/
theorem Lists.linesTo_eq_writeAll {σ : Type} {writer : Writer σ} {code : Array UInt8} {pc : Nat}
    {offsets : List Nat} (hlists : Lists code pc offsets) {outlet : Outlet σ}
    (htracked : outlet.track = outlet) :
    linesTo writer code pc outlet = outlet.writeAll writer (offsets.flatMap (linePieces code)) := by
  induction hlists generalizing outlet with
  | done hend =>
      rw [linesTo, disassembleTo?, hend]
      rfl
  | @line pc next pieces offsets hline hrest ih =>
      have hcolumn : (outlet.write writer (utf8Bytes (offsetColumn pc))).2.track =
          (outlet.write writer (utf8Bytes (offsetColumn pc))).2 := Outlet.track_write htracked _
      have hshown : disassembleTo? writer code pc
          (outlet.write writer (utf8Bytes (offsetColumn pc))).2 =
            some (next, outlet.writeAll writer (offsetColumn pc :: pieces)) := by
        rw [disassembleTo?, hline, Option.map_some, hcolumn, Outlet.writeAll_cons]
      have hwritten : ((outlet.writeAll writer (offsetColumn pc :: pieces)).write writer
          (utf8Bytes "\n")).2 = outlet.writeAll writer (linePieces code pc) := by
        rw [linePieces, piecesAt, hline, Outlet.writeAll_append]
        rfl
      rw [linesTo_of_line hshown, hwritten, List.flatMap_cons, Outlet.writeAll_append]
      split
      next hfailed => exact (Outlet.writeAll_of_failed hfailed _).symm
      next => exact ih (Outlet.track_writeAll htracked _)

/-- A program is written as the pieces of its listing, one behind the other. -/
theorem Cluster.disassembleTo_eq_writeAll {σ : Type} (writer : Writer σ) (cluster : Cluster)
    (outlet : Outlet σ) :
    cluster.disassembleTo writer outlet = outlet.track.writeAll writer cluster.listing := by
  obtain ⟨offsets, hlists, hlisting⟩ := exists_lists_listingFrom cluster.code 0 []
  rw [Cluster.disassembleTo, hlists.linesTo_eq_writeAll (Outlet.track_track outlet),
    Cluster.listing, hlisting]
  rfl

/-- There is nothing to show behind the end only. -/
theorem disassembleAt?_eq_none_iff {code : Array UInt8} {pc : Nat} :
    disassembleAt? code pc = none ↔ code.size ≤ pc := by
  simp [disassembleAt?]

/-- A line ends inside the program or with it. -/
theorem next_le_of_disassembleAt? {code : Array UInt8} {pc next : Nat} {pieces : List String}
    (hline : disassembleAt? code pc = some (pieces, next)) : next ≤ code.size := by
  have hlt := (lt_next_of_disassembleAt? hline).1
  cases hsize : instructionSize? code pc with
  | none =>
      rw [disassembleAt?_of_stray hlt hsize] at hline
      obtain ⟨-, rfl⟩ := Prod.mk.inj (Option.some.inj hline)
      exact hlt
  | some size =>
      obtain ⟨opcode, -, -, hshown⟩ := disassembleAt?_of_instruction hsize
      rw [hshown] at hline
      obtain ⟨-, rfl⟩ := Prod.mk.inj (Option.some.inj hline)
      exact (instructionSize?_bounds hsize).2

namespace Lists

variable {code : Array UInt8} {pc : Nat} {offsets : List Nat}

theorem le_of_mem (hlists : Lists code pc offsets) {offset : Nat} (hmem : offset ∈ offsets) :
    pc ≤ offset := by
  induction hlists with
  | done => cases hmem
  | line hline hrest ih =>
      rcases List.mem_cons.mp hmem with rfl | hlater
      · exact Nat.le_refl _
      · have hnext := lt_next_of_disassembleAt? hline
        have := ih hlater
        omega

theorem increasing (hlists : Lists code pc offsets) : offsets.Pairwise (· < ·) := by
  induction hlists with
  | done => exact .nil
  | line hline hrest ih =>
      refine .cons ?_ ih
      intro offset hmem
      exact Nat.lt_of_lt_of_le (lt_next_of_disassembleAt? hline).2 (hrest.le_of_mem hmem)

/-- Every line takes at least one byte. -/
theorem length_le (hlists : Lists code pc offsets) : offsets.length ≤ code.size - pc := by
  induction hlists with
  | done => exact Nat.zero_le _
  | line hline hrest ih =>
      have hnext := lt_next_of_disassembleAt? hline
      simp only [List.length_cons]
      omega

end Lists

/-- The positions from each offset up to the next one, those of the last offset up to `stop`. -/
def spans (offsets : List Nat) (stop : Nat) : List (List Nat) :=
  List.zipWith (fun start next => List.range' start (next - start)) offsets
    (offsets.tail ++ [stop])

/-- The lines of a listing share out the bytes of the program among them. -/
theorem Lists.flatten_spans {code : Array UInt8} {pc : Nat} {offsets : List Nat}
    (hlists : Lists code pc offsets) (hle : pc ≤ code.size) :
    (spans offsets code.size).flatten = List.range' pc (code.size - pc) := by
  induction hlists with
  | done hend =>
      have hsize := disassembleAt?_eq_none_iff.mp hend
      rw [Nat.sub_eq_zero_of_le hsize]
      rfl
  | @line pc next pieces offsets hline hrest ih =>
      have hnext := next_le_of_disassembleAt? hline
      have hlt := (lt_next_of_disassembleAt? hline).2
      have hsplit : List.range' pc (next - pc) ++ List.range' next (code.size - next) =
          List.range' pc (code.size - pc) := by
        have happend := @List.range'_append_1 pc (next - pc) (code.size - next)
        rwa [show pc + (next - pc) = next by omega,
          show next - pc + (code.size - next) = code.size - pc by omega] at happend
      rw [← hsplit, ← ih hnext]
      -- the first span ends where the rest of the listing starts
      cases hrest with
      | done hend =>
          obtain rfl : next = code.size :=
            Nat.le_antisymm hnext (disassembleAt?_eq_none_iff.mp hend)
          simp [spans]
      | line => simp [spans]

/-- A listing starts with the instructions of the scan, and goes on where the scan stops. -/
theorem Scans.exists_lists {code : Array UInt8} {pc stop : Nat} {table offsets : List Nat}
    (hscans : Scans code pc table stop) (hlists : Lists code pc offsets) :
    ∃ rest, offsets = table ++ rest ∧ Lists code stop rest := by
  induction hscans generalizing offsets with
  | stop hnone => exact ⟨offsets, rfl, hlists⟩
  | next hsize hrest ih =>
      obtain ⟨opcode, -, -, hshown⟩ := disassembleAt?_of_instruction hsize
      cases hlists with
      | done hend => simp [hend] at hshown
      | line hline hlater =>
          rw [hline] at hshown
          obtain ⟨-, rfl⟩ := Prod.mk.inj (Option.some.inj hshown)
          obtain ⟨rest, rfl, hlists⟩ := ih hlater
          exact ⟨rest, rfl, hlists⟩

/-- A cluster is listed with a line for each of the offsets. -/
structure Cluster.ListedAt (cluster : Cluster) (offsets : List Nat) : Prop where
  /-- A writer that takes every write is given the lines, one behind the other. -/
  text : ∀ {σ : Type} {writer : Writer σ}, writer.Accepts → ∀ target,
    let outlet := cluster.disassembleTo writer.noting (.bare (target, []))
    outlet.failure = none ∧ outlet.target.2 =
      utf8Bytes (String.join (offsets.map fun offset => lineAt cluster.code offset ++ "\n"))
  lines : ∀ offset ∈ offsets, '\n' ∉ (lineAt cluster.code offset).toList
  length : offsets.length ≤ cluster.size
  increasing : offsets.Pairwise (· < ·)
  /-- The lines share out the bytes among them. -/
  partition : (spans offsets cluster.size).flatten = List.range cluster.size
  table : offsets.take cluster.count = cluster.offsets.toList
  /-- Behind the instructions of a table that does not cover the program stands the byte where it
  stops. -/
  stray : ¬ cluster.Covered → ∃ stop, Scans cluster.code 0 cluster.offsets.toList stop ∧
    offsets[cluster.count]? = some stop ∧
      shownAt cluster.code stop =
        "??? 0x" ++ instructionPieces.hexByte (cluster.code.getD stop 0)

/-- Every cluster has a listing. -/
theorem Cluster.exists_listedAt (cluster : Cluster) : ∃ offsets, cluster.ListedAt offsets := by
  obtain ⟨offsets, hlists, hlisting⟩ := exists_lists_listingFrom cluster.code 0 []
  obtain ⟨stop, hscans⟩ := cluster.exists_scans
  obtain ⟨rest, hoffsets, hrest⟩ := hscans.exists_lists hlists
  have hcount : cluster.count = cluster.offsets.toList.length := by simp [Cluster.count]
  refine ⟨offsets, ?_, ?_, hlists.length_le, hlists.increasing, ?_, ?_, ?_⟩
  · intro σ writer haccepts target
    obtain ⟨hfailure, htext⟩ :=
      Outlet.writeAll_bare_of_keeps (Writer.noting_keeps haccepts) cluster.listing (target, [])
    rw [Cluster.disassembleTo_eq_writeAll]
    refine ⟨hfailure, htext.trans ?_⟩
    rw [Cluster.listing, hlisting, utf8Bytes_join]
    simp [List.flatMap_assoc, List.flatMap_map, ← join_linePieces, utf8Bytes_join]
  · exact fun offset _ => newline_not_mem_lineAt cluster.code offset
  · rw [Cluster.size, hlists.flatten_spans (Nat.zero_le _), Nat.sub_zero, List.range_eq_range']
  · rw [hoffsets, hcount, List.take_left]
  · intro hnot
    have hlt : stop < cluster.code.size := by
      refine Nat.lt_of_le_of_ne (hscans.stop_le (Nat.zero_le _)) ?_
      rintro rfl
      exact hnot (Cluster.covered_iff.mpr hscans)
    refine ⟨stop, hscans, ?_, ?_⟩
    · cases hrest with
      | done hend => exact absurd (disassembleAt?_eq_none_iff.mp hend) (Nat.not_le.mpr hlt)
      | line => simp [hoffsets, hcount]
    · exact shownAt_of_stray hlt hscans.size_of_stop

/-! ### Reading at a position -/

namespace Machine

variable {σ : Type}

/-- There is no complete instruction at the position of the machine. -/
def Unreadable (machine : Machine) : Prop :=
  machine.decode = .error (.fault (.cause .invalidOpcode)) ∨
    machine.decode = .error (.fault (.cause .truncatedInstruction))

/-- An instruction is unreadable where scanning finds none. -/
theorem unreadable_iff {machine : Machine} (hlt : machine.pc < machine.program.size) :
    machine.Unreadable ↔ instructionSize? machine.program.code machine.pc = none := by
  have hinside : machine.pc < machine.program.code.size := hlt
  have hbyte : machine.program.code[machine.pc]? = some (machine.operandByte 0) := by
    simp [operandByte, hinside]
  have hread : machine.byteAt 0 = .ok (machine.operandByte 0) := byteAt_of_lt hlt
  simp only [Unreadable, decode, hread, instructionSize?, hbyte, bind, Except.bind]
  cases Opcode.ofByte? (machine.operandByte 0) with
  | none => simp [throw, throwThe, MonadExceptOf.throw]
  | some opcode =>
      by_cases hcut : machine.program.size < machine.pc + opcode.size
      · have hnot : ¬ machine.pc + opcode.size ≤ machine.program.code.size := Nat.not_le.mpr hcut
        simp [hcut, hnot, throw, throwThe, MonadExceptOf.throw]
      · have hfits : machine.pc + opcode.size ≤ machine.program.code.size := Nat.not_lt.mp hcut
        -- from here on only the operands are checked, and a failed check names the operand
        rcases checkOperands_of_le (show machine.pc + (1 + OperandKind.totalSize opcode.operands) ≤
          machine.program.size from hfits) with hcheck | ⟨operand, inner, hcheck⟩ <;>
          simp [hcut, hfits, hcheck, pure, Except.pure]

/-- The instruction does not halt the machine, and if it is a branch, it is not taken. -/
def MovesOn (machine : Machine) (opcode : Opcode) : Prop :=
  opcode ≠ .halt ∧ ∀ condition, opcode = .branch condition → condition.holds machine.flag = false

/-- An instruction that moves on comes to stand behind its last byte. -/
theorem pc_of_leadsTo {machine next : Machine} {opcode : Opcode}
    (hleads : (machine.intent opcode).LeadsTo next) (hmoves : machine.MovesOn opcode) :
    next.pc = machine.pc + opcode.size := by
  cases opcode with
  | nop | unary =>
      obtain rfl := Except.ok.inj hleads
      rfl
  | halt => exact absurd rfl hmoves.1
  | binary op mode | push mode =>
      obtain ⟨_, -, rfl⟩ := map_eq_ok_iff.mp hleads
      cases mode <;> rfl
  | pop | peek | drop =>
      obtain ⟨_, -, rfl⟩ := map_eq_ok_iff.mp hleads
      rfl
  | compare mode =>
      obtain rfl := Except.ok.inj hleads
      cases mode <;> rfl
  | branch condition =>
      obtain rfl := Except.ok.inj hleads
      simp only [complete, hmoves.2 condition rfl]
      rfl
  | input =>
      obtain ⟨_, rfl⟩ := hleads
      rfl
  | write channel style mode =>
      obtain rfl := hleads
      cases mode <;> rfl

/-- A run of one instruction that returns has completed that instruction. -/
theorem exists_leadsTo_of_run {device : Device σ} {fuel : Nat} {machine : Machine} {host : σ}
    (hlt : machine.pc < machine.program.size)
    (hreturned : (machine.run device fuel 1 host).ending = .returned) :
    ∃ opcode, machine.decode = .ok opcode ∧
      (machine.intent opcode).LeadsTo (machine.run device fuel 1 host).machine := by
  have hrunning := finished_eq_false_iff.mpr hlt
  rcases hattempt : machine.attempt device host with ⟨interruption | next, after⟩
  · rw [run_one_of_interrupted hrunning hattempt] at hreturned
    exact absurd hreturned (endingOf_ne_returned _ _ _)
  · rw [run_one_of_completed hrunning hattempt]
    cases hdecode : machine.decode with
    | error interruption => simp [attempt, hdecode] at hattempt
    | ok opcode =>
        rw [attempt_of_decode device hdecode] at hattempt
        exact ⟨opcode, rfl, Intent.leadsTo_of_perform hattempt⟩

end Machine

/-- Every program is listed with a line for each of some offsets, which start with those of its
table. At any position of it, the text says that there is no instruction exactly if a machine
cannot read one there; otherwise text and machine go on behind the same number of bytes, unless
the instruction sets the position itself. -/
theorem decoders_agree (code : Array UInt8) :
    (∃ offsets, (Cluster.ofCode code).ListedAt offsets) ∧
    ∀ machine : Machine, machine.program = .ofCode code → machine.pc < code.size →
      ∃ next, WrittenAt code machine.pc (shownAt code machine.pc) next ∧
        ("???".toList <+: (shownAt code machine.pc).toList ↔ machine.Unreadable) ∧
        (¬ machine.Unreadable → ∃ opcode,
          Opcode.ofByte? (machine.operandByte 0) = some opcode ∧
          next = machine.pc + opcode.size ∧
          ∀ {σ : Type} (device : Device σ) (fuel : Nat) (host : σ),
            let result := machine.run device fuel 1 host
            result.ending = .returned → machine.MovesOn opcode →
              result.machine.pc = machine.pc + opcode.size) := by
  refine ⟨Cluster.exists_listedAt _, ?_⟩
  intro machine hprogram hlt
  obtain rfl : code = machine.program.code := by rw [hprogram]; rfl
  have hunreadable : machine.Unreadable ↔ _ := Machine.unreadable_iff hlt
  cases hsize : instructionSize? machine.program.code machine.pc with
  | none =>
      refine ⟨_, writtenAt_of_disassembleAt? (disassembleAt?_of_stray hlt hsize), ?_, ?_⟩
      · rw [hunreadable, unknown_iff hlt]
      · exact fun hreadable => absurd (hunreadable.mpr hsize) hreadable
  | some size =>
      obtain ⟨opcode, hopcode, rfl, hline⟩ := disassembleAt?_of_instruction hsize
      refine ⟨_, writtenAt_of_disassembleAt? hline, ?_, fun _ => ⟨opcode, hopcode, rfl, ?_⟩⟩
      · rw [hunreadable, unknown_iff hlt]
      · intro σ device fuel host result hreturned hmoves
        obtain ⟨found, hdecode, hleads⟩ := Machine.exists_leadsTo_of_run hlt hreturned
        obtain rfl : opcode = found :=
          Option.some.inj (hopcode.symm.trans (Machine.decode_iff.mp hdecode).2.1)
        exact Machine.pc_of_leadsTo hleads hmoves

/-- Behind an instruction stand a byte that names none and one that starts an incomplete one. -/
theorem decoders_agree_of_stray :
    let code : Array UInt8 := #[25, 0, 99, 3]
    let machine : Machine := ⟨.ofCode code, 0, #[0], .new 1, .unset, 0⟩
    (∃ offsets, (Cluster.ofCode code).ListedAt offsets ∧ offsets.take 1 = [0] ∧
      offsets[1]? = some 2) ∧
    (¬ machine.Unreadable ∧ (machine.run Device.keeping 4 1 []).machine.pc = 2) ∧
    { machine with pc := 3 }.Unreadable ∧ shownAt code 3 = "??? 0x03" := by
  intro code machine
  obtain ⟨⟨offsets, hlisted⟩, hshown⟩ := decoders_agree code
  have htable : (Cluster.ofCode code).offsets = #[0] := by decide +kernel
  have hscans : Scans code 0 [0] 2 := .next rfl (.stop rfl)
  have hreadable : ¬ machine.Unreadable := by
    unfold Machine.Unreadable
    decide +kernel
  have htext : shownAt code 3 = "??? 0x03" := by decide +kernel
  refine ⟨⟨offsets, hlisted, ?_, ?_⟩, ⟨hreadable, ?_⟩, ?_, htext⟩
  · have hstart := hlisted.table
    rwa [Cluster.count, htable] at hstart
  · obtain ⟨stop, hstop, hline, -⟩ := hlisted.stray fun hcovered => by
      have hall := Cluster.covered_iff.mp hcovered
      rw [htable] at hall
      cases (hall.unique hscans).2
    rw [htable] at hstop
    obtain ⟨-, rfl⟩ := hstop.unique hscans
    rwa [Cluster.count, htable] at hline
  · obtain ⟨next, -, -, hnext⟩ := hshown machine rfl (by decide)
    obtain ⟨opcode, ⟨rfl⟩, -, hrun⟩ := hnext hreadable
    exact hrun Device.keeping 4 [] (by decide +kernel)
      ⟨by decide, fun condition hbranch => by cases hbranch⟩
  · obtain ⟨next, -, hunknown, -⟩ := hshown { machine with pc := 3 } rfl (by decide)
    refine hunknown.mp ?_
    rw [htext]
    decide

end Octet
