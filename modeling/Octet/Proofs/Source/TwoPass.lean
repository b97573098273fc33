import Mathlib.Data.List.Nodup
import Octet.Proofs.Source.Emission

/-! # One pass gives what two passes give

An assembler with two passes first lays out the instructions, which gives every label
its address, and then encodes them. It has nothing to object to when no label is
defined twice, those in use are all defined, the registers are there and the program
is not too long. The assembler with one pass objects in just the same cases, and
otherwise comes to the same bytes.
-/

namespace Octet

/-! ### The labels of a source -/

/-- The labels that some statements define, in order. -/
def labelsOf (statements : List Statement) : List String := statements.filterMap Statement.label

theorem mem_labelsOf_iff {statements : List Statement} {name : String} :
    name ∈ labelsOf statements ↔ (labelPoint? statements name).isSome := by
  simp [labelsOf, labelPoint?]

theorem isSome_labelAddress?_iff {statements : List Statement} {name : String} :
    (labelAddress? statements name).isSome ↔ name ∈ labelsOf statements := by
  rw [mem_labelsOf_iff, labelAddress?, Option.isSome_map]

theorem labelAddress?_eq_none_iff {statements : List Statement} {name : String} :
    labelAddress? statements name = none ↔ name ∉ labelsOf statements := by
  rw [← isSome_labelAddress?_iff, Option.not_isSome_iff_eq_none]

theorem labelsOf_append (statements : List Statement) (statement : Statement) :
    labelsOf (statements ++ [statement]) = labelsOf statements ++ statement.label.toList := by
  rw [labelsOf, List.filterMap_append]
  cases hlabel : statement.label <;> simp [labelsOf, hlabel]

/-- The labels are still all different exactly if a new one is new. -/
theorem nodup_labelsOf_append {statements : List Statement} {statement : Statement} :
    (labelsOf (statements ++ [statement])).Nodup ↔
      (labelsOf statements).Nodup ∧
        ∀ name, statement.label = some name → name ∉ labelsOf statements := by
  rw [labelsOf_append]
  cases hlabel : statement.label with
  | none => simp
  | some defined =>
      rw [Option.toList_some, List.nodup_append_comm, List.singleton_append, List.nodup_cons]
      simp [and_comm]

/-- A label stands for the size of the instructions before the statement that defines it first. -/
theorem labelAddress?_of_split {before : List Statement} {statement : Statement} {name : String}
    (hfresh : name ∉ labelsOf before) (hlabel : statement.label = some name)
    (after : List Statement) :
    labelAddress? (before ++ statement :: after) name =
      some (codeSize (instructionsOf before)) := by
  induction after using List.reverseRecOn with
  | nil => simp [labelAddress?_append, labelAddress?_eq_none_iff.mpr hfresh, hlabel]
  | append_singleton after last ih =>
      have hsplit : before ++ statement :: (after ++ [last]) =
          (before ++ statement :: after) ++ [last] := by simp
      rw [hsplit, labelAddress?_append, ih, Option.some_or]

/-- A label that is defined once stands for the size of the instructions before its definition. -/
theorem addressIn_of_split {before after : List Statement} {statement : Statement} {name : String}
    (hnodup : (labelsOf (before ++ statement :: after)).Nodup)
    (hlabel : statement.label = some name) :
    addressIn (before ++ statement :: after) name = codeSize (instructionsOf before) := by
  have hfresh : name ∉ labelsOf before := by
    rw [labelsOf, List.filterMap_append] at hnodup
    intro hmem
    exact List.disjoint_of_nodup_append hnodup hmem (by simp [hlabel])
  rw [addressIn, labelAddress?_of_split hfresh hlabel]
  rfl

/-! ### What operands object to -/

theorem OperandBytes.Holds.length {registers start : Nat} {labels : LabelTable}
    {operands : List Operand} {uses : List LabelUse} {result : OperandBytes}
    (hholds : result.Holds registers start labels operands uses) :
    result.bytes.length =
      OperandKind.totalSize (operands.map fun operand => operand.value.kind) := by
  let address (name : String) : Nat := (labels.address? name).getD 0
  have hextends : Extends labels.address? address := fun name known hknown => by
    simp [address, hknown]
  have hbytes := congrArg List.length (hholds.bytes address hextends
    (List.replicate (start + 1) 0) List.length_replicate)
  rw [length_fill, List.length_append, List.length_append, length_flatMap_bytes] at hbytes
  exact Nat.add_left_cancel hbytes

/-- Operands are objected to only for a register that is not there. -/
theorem OperandBytes.notices_foldl {registers : Nat} {operands : List Operand}
    (hregisters : ∀ operand ∈ operands, ∀ index, operand.value = .register index →
      index.toNat < registers) (start : Nat) (labels : LabelTable) :
    (operands.foldl (OperandBytes.add registers start) ⟨[], labels, []⟩).notices = [] := by
  induction operands using List.reverseRecOn with
  | nil => rfl
  | append_singleton operands operand ih =>
      obtain ⟨hothers, hlast⟩ := List.forall_mem_append.mp hregisters
      have hbefore := ih hothers
      have hbelow := hlast operand (List.mem_singleton_self operand)
      rw [List.foldl_append]
      simp only [List.foldl_cons, List.foldl_nil, OperandBytes.add]
      split
      next index hvalue =>
        have hlt := hbelow index hvalue
        rw [if_neg (by omega)]
        exact hbefore
      next => exact hbefore
      next => exact hbefore

/-- The uses that wait for a definition are those of operands. -/
theorem OperandBytes.pending_foldl (registers start : Nat) (labels : LabelTable)
    (operands : List Operand) :
    ∀ use ∈ (operands.foldl (OperandBytes.add registers start) ⟨[], labels, []⟩).labels.pending,
      use ∈ labels.pending ∨ ⟨.label use.name, use.place⟩ ∈ operands := by
  induction operands using List.reverseRecOn with
  | nil => exact fun use huse => .inl huse
  | append_singleton operands operand ih =>
      rw [List.foldl_append]
      generalize operands.foldl _ _ = before at ih
      intro use huse
      have holder (huse : use ∈ before.labels.pending) :
          use ∈ labels.pending ∨ ⟨.label use.name, use.place⟩ ∈ operands ++ [operand] :=
        (ih use huse).imp_right (List.mem_append_left [operand])
      simp only [List.foldl_cons, List.foldl_nil, OperandBytes.add] at huse
      split at huse
      next => exact holder huse
      next => exact holder huse
      next name hvalue =>
        simp only [LabelTable.reference] at huse
        split at huse
        next => exact holder huse
        next =>
          rcases List.mem_cons.mp huse with rfl | huse
          · exact .inr (by simp [← hvalue])
          · exact holder huse

/-! ### What statements object to -/

/-- An instruction is accepted exactly if its registers are there and its code fits. -/
theorem Emission.notices_addInstruction_iff {registers : Nat} {emission : Emission} {place : Place}
    {instruction : Instruction} (hwell : instruction.WellFormed) :
    (emission.addInstruction registers place instruction).notices = [] ↔
      emission.notices = [] ∧ instruction.UsesRegisters registers ∧
        emission.builder.code.size + instruction.opcode.size ≤ maxClusterSize := by
  have hsize {operands : OperandBytes} {uses : List LabelUse}
      (hholds : operands.Holds registers emission.builder.code.size emission.labels
        instruction.operands uses) : operands.bytes.length + 1 = instruction.opcode.size := by
    rw [hholds.length, ← hwell, Opcode.size, Nat.add_comm]
  constructor
  · intro hnotices
    obtain ⟨hbefore, operands, uses, hholds, hfound, -, -, hcode, hfits⟩ :=
      Emission.addInstruction_spec hnotices
    refine ⟨hbefore, hholds.registers hfound, ?_⟩
    rw [← Array.length_toList, hcode, List.length_append, Array.length_toList, List.length_cons,
      hsize hholds] at hfits
    exact hfits
  · rintro ⟨hbefore, hregisters, hfits⟩
    obtain ⟨uses, hholds⟩ := OperandBytes.exists_holds_foldl registers emission.builder.code.size
      emission.labels instruction.operands
    have hfound := OperandBytes.notices_foldl hregisters emission.builder.code.size emission.labels
    obtain ⟨next, hemit⟩ := Builder.emit_of_le (hsize hholds) hfits
    simp only [Emission.addInstruction, hfound, List.isEmpty_nil, ↓reduceIte, hemit]
    exact hbefore

/-- A label is accepted exactly if it is new. -/
theorem Emission.notices_addLabel_iff {emission : Emission} {place : Place}
    {label : Option String} :
    (emission.addLabel place label).notices = [] ↔
      emission.notices = [] ∧ ∀ name, label = some name → emission.labels.address? name = none := by
  cases label with
  | none => simp [Emission.addLabel]
  | some name =>
      simp only [Emission.addLabel, LabelTable.define, LabelTable.address?]
      cases hsite : emission.labels.site? name <;> simp [hsite]

theorem Emission.builder_addLabel (emission : Emission) (place : Place) (label : Option String) :
    (emission.addLabel place label).builder = emission.builder := by
  cases label with
  | none => rfl
  | some name =>
      simp only [Emission.addLabel]
      split <;> rfl

/-- A statement is objected to for its label, or for the registers or the size of its
instruction. -/
theorem Emission.Holds.notices_addStatement_iff {registers : Nat} {instructions : List Instruction}
    {emission : Emission} (hholds : emission.Holds registers instructions) {statement : Statement}
    (hwell : ∀ instruction ∈ instructionsOf [statement], instruction.WellFormed) :
    (emission.addStatement registers statement).notices = [] ↔
      emission.notices = [] ∧
      (∀ name, statement.label = some name → emission.labels.address? name = none) ∧
      (∀ instruction ∈ instructionsOf [statement], instruction.UsesRegisters registers) ∧
      emission.builder.code.size + codeSize (instructionsOf [statement]) ≤ maxClusterSize := by
  by_cases hbefore : emission.notices = []
  case neg =>
    exact iff_of_false (fun hnotices => hbefore (Emission.notices_of_addStatement _ hnotices))
      fun hwhole => hbefore hwhole.1
  rw [Emission.addStatement_of_unnoticed hholds.full hbefore]
  cases hinstruction : statement.instruction with
  | none =>
      rw [Emission.notices_addLabel_iff]
      simp [instructionsOf, hinstruction, codeSize, hholds.fits]
  | some instruction =>
      have hone : instructionsOf [statement] = [instruction] := by
        simp [instructionsOf, hinstruction]
      rw [hone] at hwell ⊢
      rw [Emission.notices_addInstruction_iff (hwell instruction (List.mem_singleton_self _)),
        Emission.notices_addLabel_iff, Emission.builder_addLabel, and_assoc,
        List.forall_mem_singleton]
      rfl

/-- Statements are objected to for their labels, their registers, or the size of the program. -/
theorem Emission.notices_foldl_iff (registers : Nat) {statements : List Statement}
    {builder : Builder} (hbuilder : builder.code = #[])
    (hwell : ∀ instruction ∈ instructionsOf statements, instruction.WellFormed) :
    (statements.foldl (Emission.addStatement registers) ⟨builder, .empty, [], false⟩).notices = [] ↔
      (labelsOf statements).Nodup ∧
      (∀ instruction ∈ instructionsOf statements, instruction.UsesRegisters registers) ∧
      codeSize (instructionsOf statements) ≤ maxClusterSize := by
  induction statements using List.reverseRecOn with
  | nil => simp [labelsOf, instructionsOf, codeSize]
  | append_singleton statements statement ih =>
      rw [instructionsOf_append, List.forall_mem_append] at hwell
      obtain ⟨hothers, hlast⟩ := hwell
      have hbefore := ih hothers
      have hfold := Emission.holds_foldl registers hbuilder hothers
      rw [List.foldl_append, List.foldl_cons, List.foldl_nil, instructionsOf_append,
        List.forall_mem_append, codeSize_append, nodup_labelsOf_append]
      constructor
      · intro hnotices
        have hempty := Emission.notices_of_addStatement registers hnotices
        obtain ⟨hholds, haddress⟩ := hfold hempty
        obtain ⟨hnodup, hregisters, -⟩ := hbefore.mp hempty
        obtain ⟨-, hlabel, hregister, hfits⟩ := (hholds.notices_addStatement_iff hlast).mp hnotices
        rw [hholds.size hothers] at hfits
        refine ⟨⟨hnodup, ?_⟩, ⟨hregisters, hregister⟩, hfits⟩
        intro name hname
        rw [← labelAddress?_eq_none_iff, ← haddress]
        exact hlabel name hname
      · rintro ⟨⟨hnodup, hlabel⟩, ⟨hregisters, hregister⟩, hfits⟩
        have hempty := hbefore.mpr ⟨hnodup, hregisters, by omega⟩
        obtain ⟨hholds, haddress⟩ := hfold hempty
        refine (hholds.notices_addStatement_iff hlast).mpr ⟨hempty, ?_, hregister, ?_⟩
        · intro name hname
          rw [haddress, labelAddress?_eq_none_iff]
          exact hlabel name hname
        · rw [hholds.size hothers]
          exact hfits

/-! ### What stays open -/

theorem Emission.pending_addLabel (emission : Emission) (place : Place) (label : Option String) :
    (emission.addLabel place label).labels.pending = emission.labels.pending := by
  cases label with
  | none => rfl
  | some name =>
      simp only [Emission.addLabel, LabelTable.define]
      cases emission.labels.site? name <;> rfl

/-- Only the operands of an instruction bear on the labels. -/
theorem Emission.labels_addInstruction (registers : Nat) (emission : Emission) (place : Place)
    (instruction : Instruction) :
    (emission.addInstruction registers place instruction).labels =
      (instruction.operands.foldl (OperandBytes.add registers emission.builder.code.size)
        ⟨[], emission.labels, []⟩).labels := by
  simp only [Emission.addInstruction]
  split
  next => split <;> rfl
  next => rfl

/-- The uses that wait for a definition are those of instructions. -/
theorem Emission.pending_foldl (registers : Nat) (statements : List Statement) (builder : Builder) :
    ∀ use ∈ (statements.foldl (Emission.addStatement registers)
        ⟨builder, .empty, [], false⟩).labels.pending,
      ∃ instruction ∈ instructionsOf statements,
        ⟨.label use.name, use.place⟩ ∈ instruction.operands := by
  induction statements using List.reverseRecOn with
  | nil => simp [LabelTable.empty]
  | append_singleton statements statement ih =>
      rw [List.foldl_append, List.foldl_cons, List.foldl_nil, instructionsOf_append]
      generalize statements.foldl _ _ = before at ih ⊢
      intro use huse
      have holder (huse : use ∈ before.labels.pending) :
          ∃ instruction ∈ instructionsOf statements ++ instructionsOf [statement],
            ⟨.label use.name, use.place⟩ ∈ instruction.operands := by
        obtain ⟨instruction, hmem, hoperand⟩ := ih use huse
        exact ⟨instruction, List.mem_append_left _ hmem, hoperand⟩
      unfold Emission.addStatement at huse
      split at huse
      next => exact holder huse
      next =>
        split at huse
        next =>
          rw [Emission.pending_addLabel] at huse
          exact holder huse
        next instruction hinstruction =>
          rw [Emission.labels_addInstruction] at huse
          rcases OperandBytes.pending_foldl _ _ _ _ use huse with hbefore | hoperand
          · rw [Emission.pending_addLabel] at hbefore
            exact holder hbefore
          · exact ⟨instruction, by simp [instructionsOf, hinstruction], hoperand⟩

/-- Open targets whose labels are all defined are filled in. -/
theorem Emission.notices_resolve_foldr {labels : LabelTable} {builder : Builder}
    (hfits : builder.code.size ≤ maxClusterSize)
    (haddresses : ∀ name known, labels.address? name = some known → known ≤ maxClusterSize)
    {uses : List LabelUse} (hpositions : ∀ use ∈ uses, use.position + 2 ≤ builder.code.size)
    (hdefined : ∀ use ∈ uses, (labels.address? use.name).isSome) :
    (uses.foldr (fun use done => Emission.resolve labels done use) (builder, [])).2 = [] := by
  induction uses with
  | nil => rfl
  | cons use uses ih =>
      obtain ⟨hfirst, hrest⟩ := List.forall_mem_cons.mp hpositions
      obtain ⟨hname, hnames⟩ := List.forall_mem_cons.mp hdefined
      have hothers := ih hrest hnames
      -- the bytes may have changed, but not their number
      let address (name : String) : Nat := (labels.address? name).getD 0
      have hextends : Extends labels.address? address := fun name known hknown => by
        simp [address, hknown]
      obtain ⟨-, hcode⟩ := Emission.resolve_foldr labels hextends hfits haddresses hrest hothers
      have hsize := congrArg List.length hcode
      rw [length_fill, Array.length_toList, Array.length_toList] at hsize
      rw [List.foldr_cons]
      generalize uses.foldr _ _ = done at hothers hsize ⊢
      obtain ⟨filled, notices⟩ := done
      obtain ⟨known, hknown⟩ := Option.isSome_iff_exists.mp hname
      obtain ⟨site, hsite, rfl⟩ := Option.map_eq_some_iff.mp hknown
      obtain ⟨next, hpatch, -⟩ := Builder.patch_of_le (hsize ▸ hfits) (hsize ▸ hfirst)
        (haddresses _ _ hknown)
      simp only [Emission.resolve, hsite, hpatch]
      exact hothers

/-! ### The program -/

/-- The assembler objects to statements just if they are not those of a program. -/
theorem notices_emitStatements_iff (registers : Nat) {statements : List Statement}
    {builder : Builder} (hbuilder : builder.code = #[])
    (hwell : ∀ instruction ∈ instructionsOf statements, instruction.WellFormed) :
    (emitStatements registers statements builder .empty).notices = [] ↔
      (labelsOf statements).Nodup ∧
      (∀ instruction ∈ instructionsOf statements,
        instruction.UsesLabels fun name => name ∈ labelsOf statements) ∧
      (∀ instruction ∈ instructionsOf statements, instruction.UsesRegisters registers) ∧
      codeSize (instructionsOf statements) ≤ maxClusterSize := by
  have hfold := Emission.notices_foldl_iff registers hbuilder hwell
  constructor
  · intro hnotices
    have hprogram := isProgram_emitStatements registers hbuilder hwell hnotices
    have hempty : (statements.foldl (Emission.addStatement registers)
        ⟨builder, .empty, [], false⟩).notices = [] := by
      by_contra hnot
      rw [emitStatements, if_neg (fun hempty => hnot (List.isEmpty_iff.mp hempty))] at hnotices
      exact hnot hnotices
    obtain ⟨hnodup, hregisters, hfits⟩ := hfold.mp hempty
    refine ⟨hnodup, ?_, hregisters, hfits⟩
    intro instruction hmem
    exact (hprogram.labels instruction hmem).imp fun name => mem_labelsOf_iff.mpr
  · rintro ⟨hnodup, hlabels, hregisters, hfits⟩
    have hempty := hfold.mpr ⟨hnodup, hregisters, hfits⟩
    obtain ⟨hholds, haddress⟩ := Emission.holds_foldl registers hbuilder hwell hempty
    have hopen := Emission.pending_foldl registers statements builder
    simp only [emitStatements, hempty, List.isEmpty_nil, ↓reduceIte]
    generalize statements.foldl _ _ = emission at *
    obtain ⟨builder, labels, notices, full⟩ := emission
    obtain rfl : notices = [] := hempty
    simp only [Emission.finish, List.foldl_reverse]
    refine Emission.notices_resolve_foldr hholds.fits
      (fun name known hknown => Nat.le_trans (hholds.addresses name known hknown) hholds.fits)
      hholds.positions ?_
    intro use huse
    obtain ⟨instruction, hmem, hoperand⟩ := hopen use huse
    have hsome := isSome_labelAddress?_iff.mpr (hlabels instruction hmem _ hoperand _ rfl)
    rw [← haddress use.name] at hsome
    exact hsome

/-- Whatever a source is read as, the assembler objects to it just if a label is defined twice or
used without being defined, a register is not there or the program is too long. Otherwise it gives
the encoding of the instructions in which a label stands for the size of the instructions before
its definition, which its two bytes give back. -/
theorem emitStatements_twoPass (registers : Nat) (source : Source) (builder : Builder) :
    let statements := source.parse.statements
    let emission := emitStatements registers statements builder.reset .empty
    (emission.notices = [] ↔
      (labelsOf statements).Nodup ∧
      (∀ instruction ∈ instructionsOf statements,
        instruction.UsesLabels fun name => name ∈ labelsOf statements) ∧
      (∀ instruction ∈ instructionsOf statements, instruction.UsesRegisters registers) ∧
      codeSize (instructionsOf statements) ≤ maxClusterSize) ∧
    (emission.notices = [] →
      emission.builder.code.toList =
        encode (addressIn statements) (instructionsOf statements) ∧
      ∀ before statement after name, statements = before ++ statement :: after →
        statement.label = some name →
          let bytes := addressBytes (addressIn statements name)
          addressIn statements name = codeSize (instructionsOf before) ∧
            addressOfBytes bytes.1 bytes.2 = codeSize (instructionsOf before)) := by
  intro statements emission
  have hwell : ∀ instruction ∈ instructionsOf statements, instruction.WellFormed :=
    wellFormed_of_parse source
  have hiff := notices_emitStatements_iff registers (rfl : builder.reset.code = #[]) hwell
  refine ⟨hiff, ?_⟩
  intro hnotices
  obtain ⟨hnodup, -, -, hfits⟩ := hiff.mp hnotices
  refine ⟨(isProgram_emitStatements registers rfl hwell hnotices).bytes, ?_⟩
  generalize statements = statements at *
  rintro before statement after name rfl hlabel
  have haddress := addressIn_of_split hnodup hlabel
  rw [instructionsOf_append, codeSize_append] at hfits
  refine ⟨haddress, ?_⟩
  rw [addressOfBytes_addressBytes (by omega), haddress]

/-- Branches forwards and backwards. -/
theorem emitStatements_twoPass_of_branches :
    let source := Source.ofBytes (utf8Bytes "a: jmp b\nb: jmp a\njmp b") none
    let emission := emitStatements 1 source.parse.statements Builder.empty.reset .empty
    emission.notices = [] ∧ emission.builder.code = #[34, 3, 0, 34, 0, 0, 34, 3, 0] := by
  intro source
  obtain ⟨hiff, hbytes⟩ := emitStatements_twoPass 1 source .empty
  have hinstructions : instructionsOf source.parse.statements =
      [⟨.branch .always, [⟨.label "b", ⟨7, 1, 8⟩⟩]⟩, ⟨.branch .always, [⟨.label "a", ⟨16, 2, 8⟩⟩]⟩,
        ⟨.branch .always, [⟨.label "b", ⟨22, 3, 5⟩⟩]⟩] := by
    decide +kernel
  have hlabels : labelsOf source.parse.statements = ["a", "b"] := by decide +kernel
  have hencoded : encode (addressIn source.parse.statements)
      (instructionsOf source.parse.statements) = [34, 3, 0, 34, 0, 0, 34, 3, 0] := by
    decide +kernel
  rw [hinstructions, hlabels] at hiff
  have hnotices := hiff.mpr ⟨by decide, by simp [Instruction.UsesLabels],
    by simp [Instruction.UsesRegisters], by decide⟩
  exact ⟨hnotices, Array.toList_inj.mp ((hbytes hnotices).1.trans hencoded)⟩

end Octet
