import Octet.Proofs.Attribution
import Octet.Proofs.Cluster.Building

/-! # What the assembler asks of a builder

An assembler sends two kinds of requests to its builder. Each instruction of a source is
appended, and in the end the targets that were left open are overwritten. The builder is
prepared to refuse either of them. Yet it refuses an instruction only if there is no
room left for it, since what was parsed has the operands that its opcode asks for. And
it never refuses a target: when the open ones are filled in, each of them is the operand
of a branch that was appended where the assembler expected it.
-/

namespace Octet

/-! ### Instructions -/

/-- The bytes of the operands of an instruction that comes behind a program. -/
def Emission.operandsOf (registers : Nat) (emission : Emission) (instruction : Instruction) :
    OperandBytes :=
  instruction.operands.foldl (OperandBytes.add registers emission.builder.code.size)
    ⟨[], emission.labels, []⟩

/-- What the builder of a program answers to an instruction. -/
def Emission.answer (registers : Nat) (emission : Emission) (instruction : Instruction) :
    Except Cause Unit :=
  (emission.builder.emit instruction.opcode.toByte
    (emission.operandsOf registers instruction).bytes).1

/-- The problem is not that a builder has refused an instruction for its form, or a target. -/
def Problem.Unrefused (problem : Problem) : Prop :=
  problem.kind ≠ .malformed ∧ ∀ reason, problem ≠ .refusedTarget reason

section Instructions

variable {registers : Nat} {emission : Emission} {instruction : Instruction}

/-- The operands of an instruction take as many bytes as its opcode asks for. -/
theorem OperandBytes.Holds.isInstruction {start : Nat} {labels : LabelTable}
    {uses : List LabelUse} {operands : OperandBytes}
    (hholds : operands.Holds registers start labels instruction.operands uses)
    (hwell : instruction.WellFormed) :
    IsInstruction instruction.opcode.toByte operands.bytes instruction.opcode := by
  refine ⟨ofByte?_toByte instruction.opcode, ?_⟩
  rw [hholds.length, ← hwell, Opcode.size, Nat.add_comm]

/-- An instruction is refused for its size only. -/
theorem Emission.answer_of_wellFormed (registers : Nat) (emission : Emission)
    (hwell : instruction.WellFormed) :
    emission.answer registers instruction = .ok () ∨
      emission.answer registers instruction = .error .clusterTooLarge := by
  obtain ⟨uses, hholds⟩ := OperandBytes.exists_holds_foldl registers emission.builder.code.size
    emission.labels instruction.operands
  rcases hemit : emission.builder.emit instruction.opcode.toByte
    (emission.operandsOf registers instruction).bytes with ⟨answer, next⟩
  rw [Emission.answer, hemit]
  cases Builder.emits_of_emit hemit with
  | malformed _ hmalformed => exact absurd (hholds.isInstruction hwell) (hmalformed _)
  | tooLarge => exact .inr rfl
  | appended => exact .inl rfl

/-- What is noticed about an instruction is what is wrong with its operands, or else the answer of
the builder. -/
theorem Emission.notices_addInstruction (registers : Nat) (emission : Emission) (place : Place)
    (instruction : Instruction) :
    (emission.addInstruction registers place instruction).notices =
      if (emission.operandsOf registers instruction).notices.isEmpty then
        match emission.answer registers instruction with
        | .ok _ => emission.notices
        | .error .clusterTooLarge => Notice.record emission.notices ⟨place, .programTooLarge⟩
        | .error cause =>
          Notice.record emission.notices ⟨place, .refusedInstruction cause.message⟩
      else Notice.recordAll emission.notices
        (emission.operandsOf registers instruction).notices.reverse := by
  unfold Emission.answer Emission.operandsOf
  simp only [Emission.addInstruction]
  generalize instruction.operands.foldl _ _ = operands
  obtain ⟨bytes, labels, found⟩ := operands
  dsimp only
  split
  next =>
    split
    next hemit => simp only [hemit]
    next hemit => simp only [hemit]
    next hemit => simp only [hemit]
  next => rfl

/-- The builder has no reason to refuse an instruction that is well-formed, except for its size. -/
theorem Emission.unrefused_of_addInstruction (hwell : instruction.WellFormed) {place : Place}
    {notice : Notice}
    (hnotice : notice ∈ (emission.addInstruction registers place instruction).notices) :
    notice ∈ emission.notices ∨ notice.problem.Unrefused := by
  rw [Emission.notices_addInstruction] at hnotice
  split at hnotice
  next =>
    rcases emission.answer_of_wellFormed registers hwell with hok | hlarge
    · rw [hok] at hnotice
      exact .inl hnotice
    · rw [hlarge] at hnotice
      rcases Notice.mem_of_mem_record hnotice with rfl | hbefore
      · exact .inr ⟨by simp [Problem.kind], by simp⟩
      · exact .inl hbefore
  next =>
    rcases Notice.mem_of_mem_recordAll hnotice with hfound | hbefore
    · obtain ⟨operand, -, index, -, -, rfl⟩ :=
        OperandBytes.notice_of_foldl notice (List.mem_reverse.mp hfound)
      exact .inr ⟨by simp [Problem.kind], by simp⟩
    · exact .inl hbefore

end Instructions

/-- What is wrong with statements is never that an instruction was refused for its form. -/
theorem Emission.unrefused_foldl (registers : Nat) {statements : List Statement} {start : Emission}
    (hwell : ∀ instruction ∈ instructionsOf statements, instruction.WellFormed)
    (hstart : start.notices = []) :
    ∀ notice ∈ (statements.foldl (Emission.addStatement registers) start).notices,
      notice.problem.Unrefused := by
  induction statements using List.reverseRecOn with
  | nil => simp [hstart]
  | append_singleton statements statement ih =>
      rw [instructionsOf_append, List.forall_mem_append] at hwell
      obtain ⟨hothers, hlast⟩ := hwell
      have hbefore := ih hothers
      rw [List.foldl_append, List.foldl_cons, List.foldl_nil]
      generalize statements.foldl _ _ = before at hbefore ⊢
      intro notice hnotice
      have hlabel (hnotice : notice ∈ (before.addLabel statement.place statement.label).notices) :
          notice.problem.Unrefused := by
        rcases notice_of_addLabel hnotice with holder | ⟨name, previous, -, -, rfl⟩
        · exact hbefore notice holder
        · exact ⟨by simp [Problem.kind], by simp⟩
      unfold Emission.addStatement at hnotice
      split at hnotice
      next => exact hbefore notice hnotice
      next =>
        split at hnotice
        next => exact hlabel hnotice
        next instruction hinstruction =>
          have hform : instruction.WellFormed :=
            hlast instruction (by simp [instructionsOf, hinstruction])
          exact (unrefused_of_addInstruction hform hnotice).elim hlabel id

/-! ### Open targets -/

theorem operandPositions_append (start : Nat) (kinds : List OperandKind) (kind : OperandKind) :
    operandPositions start (kinds ++ [kind]) =
      operandPositions start kinds ++ [(kind, start + OperandKind.totalSize kinds)] := by
  induction kinds generalizing start with
  | nil => rfl
  | cons first kinds ih =>
      simp only [List.cons_append, operandPositions, ih, OperandKind.totalSize, Nat.add_assoc]

/-- A target that is left open is that of an operand. -/
theorem OperandBytes.position_foldl (registers start : Nat) (labels : LabelTable)
    (operands : List Operand) :
    ∀ use ∈ (operands.foldl (OperandBytes.add registers start) ⟨[], labels, []⟩).labels.pending,
      use ∈ labels.pending ∨ (OperandKind.label, use.position) ∈
        operandPositions (start + 1) (operands.map fun operand => operand.value.kind) := by
  induction operands using List.reverseRecOn with
  | nil => exact fun use huse => .inl huse
  | append_singleton operands operand ih =>
      obtain ⟨uses, hholds⟩ := OperandBytes.exists_holds_foldl registers start labels operands
      have hlength := hholds.length
      rw [List.foldl_append, List.map_append, List.map_singleton, operandPositions_append]
      generalize operands.foldl _ _ = before at ih hlength ⊢
      intro use huse
      have holder (huse : use ∈ before.labels.pending) := (ih use huse).imp_right
        (List.mem_append_left [(operand.value.kind, start + 1 +
          OperandKind.totalSize (operands.map fun operand => operand.value.kind))])
      simp only [List.foldl_cons, List.foldl_nil, OperandBytes.add] at huse
      split at huse
      next => exact holder huse
      next => exact holder huse
      next name hvalue =>
        simp only [LabelTable.reference] at huse
        split at huse
        next => exact holder huse
        next =>
          rcases List.mem_cons.mp huse with rfl | huse
          · exact .inr (by simp [hvalue, OperandValue.kind, hlength])
          · exact holder huse

/-- Only a branch has a target, and it stands behind the opcode. -/
theorem Opcode.isBranch_of_position {opcode : Opcode} {start position : Nat}
    (hmem : (OperandKind.label, position) ∈ operandPositions start opcode.operands) :
    opcode.isBranch = true ∧ position = start := by
  cases opcode with
  | branch condition => exact ⟨rfl, by simpa [operands, operandPositions] using hmem⟩
  | nop | halt | drop => cases hmem
  | unary | pop | peek | input => simp [operands, operandPositions] at hmem
  | binary op mode | compare mode | push mode | write channel style mode =>
      cases mode <;> simp [operands, operandPositions, Mode.kind] at hmem

/-- The two bytes at a position are the operand of a branch that the table of the program holds. -/
def IsTargetOperand (code : Array UInt8) (position : Nat) : Prop :=
  position + 2 ≤ code.size ∧
    ∃ offset ∈ (Cluster.ofCode code).offsets, ∃ opcode : Opcode,
      code[offset]? = some opcode.toByte ∧ opcode.isBranch = true ∧
      (OperandKind.label, position) ∈ operandPositions (offset + 1) opcode.operands

/-- A program under construction has the given history, and the targets that are open in it are those
of branches. -/
structure Emission.Tracks (events : List Builder.Event) (emission : Emission) : Prop where
  records : emission.builder.Records events
  targets : ∀ use ∈ emission.labels.pending, ∃ branch ∈ Builder.appendedIn events,
    branch.isBranch = true ∧ use.position = branch.start + 1

namespace Emission.Tracks

variable {registers : Nat} {events : List Builder.Event} {emission : Emission}

theorem addLabel (htracks : emission.Tracks events) (place : Place) (label : Option String) :
    (emission.addLabel place label).Tracks events := by
  refine ⟨?_, ?_⟩
  · rw [builder_addLabel]
    exact htracks.records
  · rw [pending_addLabel]
    exact htracks.targets

/-- An instruction without a notice is appended where its open targets are expected. -/
theorem addInstruction (htracks : emission.Tracks events) {place : Place}
    {instruction : Instruction} (hwell : instruction.WellFormed)
    (hnotices : (emission.addInstruction registers place instruction).notices = []) :
    ∃ event, (emission.addInstruction registers place instruction).Tracks (events ++ [event]) := by
  obtain ⟨-, operands, uses, hholds, -, -, -, hcode, -⟩ := addInstruction_spec hnotices
  have hrecords := htracks.records.append (hholds.isInstruction hwell) hcode
  refine ⟨_, hrecords, fun use huse => ?_⟩
  rw [labels_addInstruction] at huse
  rw [Builder.appendedIn_appended]
  rcases OperandBytes.position_foldl _ _ _ _ use huse with holder | hnew
  · obtain ⟨branch, hbranch, hrest⟩ := htracks.targets use holder
    exact ⟨branch, List.mem_append_left _ hbranch, hrest⟩
  · -- an instruction that leaves a target open has one, so it is a branch
    rw [← hwell] at hnew
    obtain ⟨hisBranch, hposition⟩ := Opcode.isBranch_of_position hnew
    refine ⟨_, List.mem_append_right _ (List.mem_singleton_self _), ?_, hposition⟩
    rwa [Builder.Appended.isBranch, ofByte?_toByte]

/-- A statement that is accepted is one request at most, and it is recorded. -/
theorem addStatement (htracks : emission.Tracks events) {statement : Statement}
    (hwell : ∀ instruction ∈ instructionsOf [statement], instruction.WellFormed)
    (hnotices : (emission.addStatement registers statement).notices = []) :
    ∃ more, (emission.addStatement registers statement).Tracks more := by
  unfold Emission.addStatement at hnotices ⊢
  split at hnotices
  next hfull =>
    rw [if_pos hfull]
    exact ⟨events, htracks⟩
  next hfull =>
    rw [if_neg hfull]
    have hlabelled := htracks.addLabel statement.place statement.label
    split at hnotices
    next => exact ⟨events, hlabelled⟩
    next instruction hinstruction =>
      have hform : instruction.WellFormed :=
        hwell instruction (by simp [instructionsOf, hinstruction])
      obtain ⟨event, hnext⟩ := hlabelled.addInstruction hform hnotices
      exact ⟨_, hnext⟩

/-- An open target is the operand of a branch. -/
theorem isTargetOperand (htracks : emission.Tracks events) {use : LabelUse}
    (huse : use ∈ emission.labels.pending) :
    IsTargetOperand emission.builder.code use.position := by
  obtain ⟨branch, hbranch, hisBranch, hposition⟩ := htracks.targets use huse
  have hreads := htracks.records.reads branch hbranch
  have hfits := hreads.fits
  obtain ⟨opcode, hinstruction⟩ := hreads.wellFormed
  have hlength := Builder.Appended.length_of_isBranch hinstruction hisBranch
  refine ⟨by omega, branch.start, ?_, opcode, ?_, ?_, ?_⟩
  · rw [← Array.mem_toList_iff, (Cluster.offsets_of_scans htracks.records.scans).1]
    exact List.mem_map_of_mem hbranch
  · rw [hreads.opcode, toByte_of_ofByte? hinstruction.1]
  · simpa [Builder.Appended.isBranch, hinstruction.1] using hisBranch
  · rw [Builder.Appended.isBranch, hinstruction.1, Option.any_some] at hisBranch
    cases opcode with
    | branch condition => simp [Opcode.operands, operandPositions, hposition]
    | _ => cases hisBranch

end Emission.Tracks

/-- All statements that are accepted are recorded. -/
theorem Emission.exists_tracks_foldl (registers : Nat) {statements : List Statement}
    {builder : Builder} (hbuilder : builder.code = #[])
    (hwell : ∀ instruction ∈ instructionsOf statements, instruction.WellFormed)
    (hnotices : (statements.foldl (Emission.addStatement registers)
      ⟨builder, .empty, [], false⟩).notices = []) :
    ∃ events, (statements.foldl (Emission.addStatement registers)
      ⟨builder, .empty, [], false⟩).Tracks events := by
  induction statements using List.reverseRecOn with
  | nil => exact ⟨[], Builder.records_nil hbuilder, by simp [LabelTable.empty]⟩
  | append_singleton statements statement ih =>
      rw [instructionsOf_append, List.forall_mem_append] at hwell
      rw [List.foldl_append] at hnotices ⊢
      obtain ⟨events, htracks⟩ := ih hwell.1 (Emission.notices_of_addStatement registers hnotices)
      exact htracks.addStatement hwell.2 hnotices

/-! ### Filling in the targets -/

section Filling

variable {labels : LabelTable} {builder : Builder}

/-- The notice about an open target whose label is missing. -/
def LabelTable.missing? (labels : LabelTable) (use : LabelUse) : Option Notice :=
  if (labels.site? use.name).isNone then some ⟨use.place, .unresolvedLabel use.name⟩ else none

/-- What becomes of an open target: its label is reported as missing, or it is overwritten. -/
theorem Emission.resolve_cases {use : LabelUse} (hfits : builder.code.size ≤ maxClusterSize)
    (haddresses : ∀ name known, labels.address? name = some known → known ≤ maxClusterSize)
    (hposition : use.position + 2 ≤ builder.code.size) (notices : List Notice) :
    (labels.site? use.name = none ∧ Emission.resolve labels (builder, notices) use =
      (builder, Notice.record notices ⟨use.place, .unresolvedLabel use.name⟩)) ∨
    ∃ site next, labels.site? use.name = some site ∧
      builder.patch (Int64.ofNat use.position) (Int64.ofNat site.address) = (.done, next) ∧
      next.code.size = builder.code.size ∧
      Emission.resolve labels (builder, notices) use = (next, notices) := by
  unfold Emission.resolve
  cases hsite : labels.site? use.name with
  | none => exact .inl ⟨rfl, rfl⟩
  | some site =>
      have hknown : labels.address? use.name = some site.address := by
        rw [LabelTable.address?, hsite, Option.map_some]
      obtain ⟨next, hpatch, hcode⟩ := Builder.patch_of_le hfits hposition
        (haddresses _ _ hknown)
      refine .inr ⟨site, next, rfl, hpatch, ?_, by simp only [hpatch]⟩
      rw [← Array.length_toList, hcode, writeAddress, List.length_set, List.length_set,
        Array.length_toList]

/-- Filling in targets does not change the number of bytes, and nothing but missing labels is
reported. -/
theorem Emission.resolve_foldl {uses : List LabelUse}
    (hfits : builder.code.size ≤ maxClusterSize)
    (haddresses : ∀ name known, labels.address? name = some known → known ≤ maxClusterSize)
    (hpositions : ∀ use ∈ uses, use.position + 2 ≤ builder.code.size) (notices : List Notice) :
    (uses.foldl (Emission.resolve labels) (builder, notices)).1.code.size = builder.code.size ∧
      (uses.foldl (Emission.resolve labels) (builder, notices)).2 =
        Notice.recordAll notices (uses.filterMap labels.missing?) := by
  induction uses generalizing builder notices with
  | nil => exact ⟨rfl, rfl⟩
  | cons use uses ih =>
      obtain ⟨hfirst, hrest⟩ := List.forall_mem_cons.mp hpositions
      rw [List.foldl_cons, List.filterMap_cons, LabelTable.missing?]
      rcases Emission.resolve_cases hfits haddresses hfirst notices with
        ⟨hsite, hresolve⟩ | ⟨site, next, hsite, -, hsize, hresolve⟩
      · obtain ⟨hkeeps, hnotices⟩ := ih hfits hrest
          (Notice.record notices ⟨use.place, .unresolvedLabel use.name⟩)
        rw [hresolve]
        exact ⟨hkeeps, by simp [hsite, hnotices, Notice.recordAll]⟩
      · obtain ⟨hkeeps, hnotices⟩ := ih (hsize ▸ hfits) (hsize ▸ hrest) notices
        rw [hresolve]
        exact ⟨hkeeps.trans hsize, by simp [hsite, hnotices]⟩

variable {registers : Nat} {instructions : List Instruction} {emission : Emission}

/-- No open target is refused, whichever have been filled in before it. -/
theorem Emission.Holds.patch_done (hholds : emission.Holds registers instructions)
    {before after : List LabelUse} {use : LabelUse}
    (hsplit : emission.labels.pending.reverse = before ++ use :: after) {site : LabelSite}
    (hsite : emission.labels.site? use.name = some site) :
    ((before.foldl (Emission.resolve ⟨emission.labels.sites, []⟩) (emission.builder, [])).1.patch
      (Int64.ofNat use.position) (Int64.ofNat site.address)).1 = .done := by
  have hpending : ∀ other ∈ before ++ use :: after,
      other.position + 2 ≤ emission.builder.code.size := by
    intro other hother
    rw [← hsplit, List.mem_reverse] at hother
    exact hholds.positions other hother
  obtain ⟨hbefore, hrest⟩ := List.forall_mem_append.mp hpending
  have haddresses (name : String) (known : Nat)
      (hknown : LabelTable.address? ⟨emission.labels.sites, []⟩ name = some known) :
      known ≤ maxClusterSize :=
    Nat.le_trans (hholds.addresses name known hknown) hholds.fits
  obtain ⟨hsize, -⟩ := Emission.resolve_foldl hholds.fits haddresses hbefore []
  rcases Emission.resolve_cases (hsize ▸ hholds.fits) haddresses
    (hsize ▸ hrest use List.mem_cons_self) [] with ⟨hmissing, -⟩ | ⟨found, next, hfound, hpatch, -⟩
  · cases hmissing.symm.trans hsite
  · obtain rfl := Option.some.inj (hfound.symm.trans hsite)
    rw [hpatch]

/-- What is reported about open targets are the labels that are missing. -/
theorem Emission.Holds.notices_finish (hholds : emission.Holds registers instructions) :
    emission.finish.notices = Notice.recordAll emission.notices
      (emission.labels.pending.reverse.filterMap emission.labels.missing?) := by
  obtain ⟨-, hnotices⟩ := @Emission.resolve_foldl ⟨emission.labels.sites, []⟩ emission.builder
    emission.labels.pending.reverse hholds.fits
    (fun name known hknown => Nat.le_trans (hholds.addresses name known hknown) hholds.fits)
    (by simpa using hholds.positions) emission.notices
  exact hnotices

/-- At the end only labels that are not defined are noticed. -/
theorem Emission.Holds.problem_of_finish (hholds : emission.Holds registers instructions)
    (hempty : emission.notices = []) :
    ∀ notice ∈ emission.finish.notices, ∃ name, notice.problem = .unresolvedLabel name := by
  rw [hholds.notices_finish, hempty]
  intro notice hnotice
  rcases Notice.mem_of_mem_recordAll hnotice with hfound | hnever
  case inr => cases hnever
  obtain ⟨use, -, hmissing⟩ := List.mem_filterMap.mp hfound
  rw [LabelTable.missing?, Option.ite_none_right_eq_some] at hmissing
  obtain rfl := Option.some.inj hmissing.2
  exact ⟨use.name, rfl⟩

end Filling

/-! ### The assembler -/

/-- While a source is assembled, no request to the builder is refused but for lack of room. The
instructions of the source are taken whatever the program so far, unless they do not fit behind it,
so no notice says that one of them is malformed. If there is no notice, the targets that are open
are operands of branches in the program, each of them is overwritten in its turn once its label is
known, and what is reported in the end are missing labels only. So the two kinds of diagnostics that
the assembler has for refused requests are never given. -/
theorem assemble_requests_accepted {registers : Int} {assembler : Assembler}
    (hassembler : assembler.Reachable registers) (name : String) (source : Source) :
    let emission := source.parse.statements.foldl (Emission.addStatement assembler.registers)
      ⟨assembler.builder, assembler.labels, [], false⟩
    (∀ instruction ∈ instructionsOf source.parse.statements, ∀ reached : Emission,
      reached.answer assembler.registers instruction = .ok () ∨
        reached.answer assembler.registers instruction = .error .clusterTooLarge) ∧
    (∀ notice ∈ emission.notices, notice.problem.kind ≠ .malformed) ∧
    (emission.notices = [] →
      (∀ use ∈ emission.labels.pending, IsTargetOperand emission.builder.code use.position) ∧
      (∀ before use after, emission.labels.pending.reverse = before ++ use :: after →
        ∀ site, emission.labels.site? use.name = some site →
          ((before.foldl (Emission.resolve ⟨emission.labels.sites, []⟩)
            (emission.builder, [])).1.patch (Int64.ofNat use.position)
              (Int64.ofNat site.address)).1 = .done) ∧
      ∀ notice ∈ emission.finish.notices, notice.problem.kind = .unresolvedLabel) ∧
    (source.parse.notices = [] →
      ∀ diagnostics, (assembler.assemble name source).result = .error diagnostics →
        ∀ diagnostic ∈ diagnostics, diagnostic.kind ≠ .malformed ∧
          ∀ reason, diagnostic.problem ≠ .refusedTarget reason) := by
  intro emission
  have hready := hassembler.ready
  have hwell := wellFormed_of_parse source
  have hemission : emission = source.parse.statements.foldl
      (Emission.addStatement assembler.registers) ⟨assembler.builder, .empty, [], false⟩ := by
    rw [← hready.labels]
  have hunrefused : ∀ notice ∈ emission.notices, notice.problem.Unrefused :=
    Emission.unrefused_foldl _ hwell rfl
  have hholds (hempty : emission.notices = []) :
      emission.Holds assembler.registers (instructionsOf source.parse.statements) := by
    rw [hemission] at hempty ⊢
    exact (Emission.holds_foldl _ hready.code hwell hempty).1
  refine ⟨fun instruction hinstruction reached =>
    reached.answer_of_wellFormed assembler.registers (hwell instruction hinstruction),
    fun notice hnotice => ?_, fun hempty => ⟨?_, ?_, ?_⟩, ?_⟩
  · exact (hunrefused notice hnotice).1
  · rw [hemission] at hempty ⊢
    obtain ⟨events, htracks⟩ := Emission.exists_tracks_foldl _ hready.code hwell hempty
    exact fun use huse => htracks.isTargetOperand huse
  · exact fun before use after hsplit site hsite => (hholds hempty).patch_done hsplit hsite
  · intro notice hnotice
    obtain ⟨name, hproblem⟩ := (hholds hempty).problem_of_finish hempty notice hnotice
    rw [hproblem, Problem.kind]
  · intro hparsed diagnostics hresult diagnostic hdiagnostic
    obtain ⟨notice, hnotice, rfl⟩ :=
      Assembler.exists_notice_of_assemble hready hparsed hresult hdiagnostic
    rw [← hready.registers, emitStatements, ← hemission] at hnotice
    split at hnotice
    next hisEmpty =>
      have hempty := List.isEmpty_iff.mp hisEmpty
      obtain ⟨name, hproblem⟩ := (hholds hempty).problem_of_finish hempty notice hnotice
      simp [Diagnostic.kind, hproblem, Problem.kind]
    next => exact hunrefused notice hnotice

/-- A source that branches forward to one label and back to another. -/
def twoBranches : Source := .ofBytes (utf8Bytes "a: jmp b\nb: jmp a") none

theorem parse_twoBranches : twoBranches.parse.statements =
    [⟨⟨3, 1, 4⟩, some "a", some ⟨.branch .always, [⟨.label "b", ⟨7, 1, 8⟩⟩]⟩⟩,
      ⟨⟨12, 2, 4⟩, some "b", some ⟨.branch .always, [⟨.label "a", ⟨16, 2, 8⟩⟩]⟩⟩] := by
  decide +kernel

/-- Of the two branches, the one forward is open in the end. -/
theorem emission_twoBranches :
    twoBranches.parse.statements.foldl (Emission.addStatement 4) ⟨.empty, .empty, [], false⟩ =
      ⟨⟨#[34, 0, 0, 34, 0, 0], 64⟩,
        ⟨((∅ : Std.HashMap String LabelSite).insert "a" ⟨⟨3, 1, 4⟩, 0⟩).insert "b" ⟨⟨12, 2, 4⟩, 3⟩,
          [⟨"b", ⟨7, 1, 8⟩, 1⟩]⟩, [], false⟩ := by
  have hfirst : Builder.emit ⟨#[], 0⟩ (Opcode.branch .always).toByte [0, 0] =
      (.ok (), ⟨#[34, 0, 0], 64⟩) := by decide +kernel
  have hsecond : Builder.emit ⟨#[34, 0, 0], 64⟩ (Opcode.branch .always).toByte [0, 0] =
      (.ok (), ⟨#[34, 0, 0, 34, 0, 0], 64⟩) := rfl
  simp [parse_twoBranches, Emission.addStatement, Emission.stopped, Emission.addLabel,
    LabelTable.define,
    LabelTable.site?, LabelTable.empty, LabelTable.reference, Emission.addInstruction,
    OperandBytes.add, addressBytes, Builder.empty, Std.HashMap.getElem_insert, hfirst, hsecond]

/-- Two branches, of which one is filled in at the end. -/
theorem assemble_requests_accepted_of_branches :
    let emission := twoBranches.parse.statements.foldl (Emission.addStatement 4)
      ⟨.empty, .empty, [], false⟩
    emission.notices = [] ∧ emission.labels.pending.map LabelUse.position = [1] ∧
      (emission.builder.patch 1 3).1 = .done ∧ IsTargetOperand emission.builder.code 1 := by
  have hassembler : Assembler.Reachable 4 fourRegisters := .new rfl
  obtain ⟨-, -, hfilling, -⟩ := assemble_requests_accepted hassembler "" twoBranches
  simp only [fourRegisters, emission_twoBranches] at hfilling ⊢
  obtain ⟨hoperands, hpatches, -⟩ := hfilling trivial
  refine ⟨trivial, rfl, ?_, hoperands _ (List.mem_singleton_self _)⟩
  exact hpatches [] _ [] rfl ⟨⟨12, 2, 4⟩, 3⟩ (by simp [LabelTable.site?])

end Octet
