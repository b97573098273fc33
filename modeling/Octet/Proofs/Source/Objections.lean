import Octet.Proofs.Source.TwoPass

/-! # What is wrong with statements

While statements are added to a program, each notice is about one of them: a label that
an earlier statement has defined, or a register that is not there. A label that no
statement defines is noticed at the end, where it is used. The places in a notice are
those of the statements and operands that it is about. All this is kept by each
statement that is added, so it holds of all notices.
-/

namespace Octet

/-! ### What one statement adds -/

/-- All that is noticed about operands is that a register is not there. -/
theorem OperandBytes.notice_of_foldl {registers start : Nat} {labels : LabelTable}
    {operands : List Operand} :
    ∀ notice ∈ (operands.foldl (OperandBytes.add registers start) ⟨[], labels, []⟩).notices,
      ∃ operand ∈ operands, ∃ index, operand.value = .register index ∧
        registers ≤ index.toNat ∧
        notice = ⟨operand.place, .invalidRegister index.toNat registers⟩ := by
  induction operands using List.reverseRecOn with
  | nil => simp
  | append_singleton operands operand ih =>
      rw [List.foldl_append, List.foldl_cons, List.foldl_nil]
      generalize operands.foldl _ _ = before at ih ⊢
      intro notice hnotice
      have holder (hbefore : notice ∈ before.notices) :
          ∃ other ∈ operands ++ [operand], ∃ index, other.value = .register index ∧
            registers ≤ index.toNat ∧
            notice = ⟨other.place, .invalidRegister index.toNat registers⟩ := by
        obtain ⟨other, hother, hrest⟩ := ih notice hbefore
        exact ⟨other, List.mem_append_left [operand] hother, hrest⟩
      simp only [OperandBytes.add] at hnotice
      split at hnotice
      next index hvalue =>
        split at hnotice
        next hcount =>
          rcases List.mem_cons.mp hnotice with rfl | hbefore
          · exact ⟨operand, by simp, index, hvalue, hcount, rfl⟩
          · exact holder hbefore
        next => exact holder hnotice
      next => exact holder hnotice
      next => exact holder hnotice

namespace Emission

variable {registers : Nat} {emission : Emission} {place : Place}

/-- All that is noticed about a label is that it was defined before. -/
theorem notice_of_addLabel {label : Option String} {notice : Notice}
    (hnotice : notice ∈ (emission.addLabel place label).notices) :
    notice ∈ emission.notices ∨ ∃ name previous, label = some name ∧
      emission.labels.site? name = some previous ∧
      notice = ⟨place, .duplicateLabel name previous.place⟩ := by
  cases label with
  | none => exact .inl hnotice
  | some name =>
      simp only [addLabel, LabelTable.define] at hnotice
      cases hsite : emission.labels.site? name with
      | none =>
          rw [hsite] at hnotice
          exact .inl hnotice
      | some previous =>
          rw [hsite] at hnotice
          rcases List.mem_cons.mp hnotice with rfl | hbefore
          · exact .inr ⟨name, previous, rfl, hsite, rfl⟩
          · exact .inl hbefore

/-- A new label gets its site, and the others keep theirs. -/
theorem site?_addLabel (emission : Emission) (place : Place) (label : Option String)
    (name : String) :
    (emission.addLabel place label).labels.site? name =
      (emission.labels.site? name).or
        (if label = some name then some ⟨place, emission.builder.code.size⟩ else none) := by
  cases label with
  | none => simp [addLabel]
  | some defined =>
      simp only [addLabel, LabelTable.define]
      cases hsite : emission.labels.site? defined with
      | some previous =>
          by_cases hsame : defined = name
          · subst hsame
            simp [hsite]
          · simp [hsame]
      | none =>
          simp only [LabelTable.site?, Std.HashMap.getElem?_insert] at hsite ⊢
          by_cases hsame : defined = name
          · subst hsame
            simp [hsite]
          · simp [hsame]

theorem site?_addInstruction (emission : Emission) (place : Place) (instruction : Instruction)
    (name : String) :
    (emission.addInstruction registers place instruction).labels.site? name =
      emission.labels.site? name := by
  obtain ⟨uses, hholds⟩ := OperandBytes.exists_holds_foldl registers emission.builder.code.size
    emission.labels instruction.operands
  rw [labels_addInstruction, LabelTable.site?, hholds.sites, LabelTable.site?]

/-- What is noticed about an instruction is that a register is not there, or that the builder
refuses it. -/
theorem notice_of_addInstruction {instruction : Instruction} {notice : Notice}
    (hnotice : notice ∈ (emission.addInstruction registers place instruction).notices) :
    notice ∈ emission.notices ∨
      (∃ operand ∈ instruction.operands, ∃ index, operand.value = .register index ∧
        registers ≤ index.toNat ∧
        notice = ⟨operand.place, .invalidRegister index.toNat registers⟩) ∨
      notice.problem.kind ∈ [.malformed, .programTooLarge] := by
  have hoperands := @OperandBytes.notice_of_foldl registers emission.builder.code.size
    emission.labels instruction.operands
  simp only [addInstruction] at hnotice
  generalize instruction.operands.foldl _ _ = operands at hnotice hoperands
  obtain ⟨bytes, labels, found⟩ := operands
  dsimp only at hnotice
  split at hnotice
  next =>
    split at hnotice
    next => exact .inl hnotice
    next =>
      rcases Notice.mem_of_mem_record hnotice with rfl | hbefore
      · exact .inr (.inr (by simp [Problem.kind]))
      · exact .inl hbefore
    next =>
      rcases Notice.mem_of_mem_record hnotice with rfl | hbefore
      · exact .inr (.inr (by simp [Problem.kind]))
      · exact .inl hbefore
  next =>
    rcases Notice.mem_of_mem_recordAll hnotice with hfound | hbefore
    · exact .inr (.inl (hoperands notice (List.mem_reverse.mp hfound)))
    · exact .inl hbefore

end Emission

/-! ### What all statements add -/

/-- The notice is about the statements, and these are where it points. -/
inductive Blames (registers : Nat) (statements : List Statement) : Notice → Prop
  | duplicate {before between after : List Statement} {first again : Statement} {name : String}
      (hsplit : statements = before ++ first :: (between ++ again :: after))
      (hfresh : name ∉ labelsOf before) (hfirst : first.label = some name)
      (hagain : again.label = some name) :
      Blames registers statements ⟨again.place, .duplicateLabel name first.place⟩
  | register {instruction : Instruction} {operand : Operand} {index : UInt8}
      (hinstruction : instruction ∈ instructionsOf statements)
      (hoperand : operand ∈ instruction.operands) (hvalue : operand.value = .register index)
      (hcount : registers ≤ index.toNat) :
      Blames registers statements ⟨operand.place, .invalidRegister index.toNat registers⟩
  | unresolved {instruction : Instruction} {operand : Operand} {name : String}
      (hinstruction : instruction ∈ instructionsOf statements)
      (hoperand : operand ∈ instruction.operands) (hvalue : operand.value = .label name)
      (hmissing : name ∉ labelsOf statements) :
      Blames registers statements ⟨operand.place, .unresolvedLabel name⟩
  | other {notice : Notice} (hkind : notice.problem.kind ∈ [.malformed, .programTooLarge]) :
      Blames registers statements notice

/-- The labels that are known have been defined first where the table says, and the notices are
about the statements `all`, of which `done` have been added. -/
structure Emission.Attributes (registers : Nat) (all done : List Statement)
    (emission : Emission) : Prop where
  sites : ∀ name site, emission.labels.site? name = some site →
    ∃ before statement after, done = before ++ statement :: after ∧ name ∉ labelsOf before ∧
      statement.label = some name ∧ site.place = statement.place
  defined : emission.stopped = false → ∀ name ∈ labelsOf done,
    (emission.labels.site? name).isSome
  notices : ∀ notice ∈ emission.notices, Blames registers all notice

namespace Emission.Attributes

variable {registers : Nat} {all done rest : List Statement} {emission : Emission}
  {statement : Statement}

/-- With a statement that is looked at, its label is defined besides those before it. -/
theorem defined_addLabel (hattributes : emission.Attributes registers all done)
    (hopen : emission.stopped = false) :
    ∀ name ∈ labelsOf (done ++ [statement]),
      ((emission.addLabel statement.place statement.label).labels.site? name).isSome := by
  intro name hname
  rw [labelsOf_append, List.mem_append, Option.mem_toList] at hname
  rw [site?_addLabel, Option.isSome_or]
  rcases hname with hbefore | hlabel
  · simp [hattributes.defined hopen name hbefore]
  · simp [Option.mem_def.mp hlabel]

/-- The label of a statement is defined there, or it has been defined before. -/
theorem addLabel (hattributes : emission.Attributes registers all done)
    (hopen : emission.stopped = false) (hall : all = done ++ statement :: rest) :
    (emission.addLabel statement.place statement.label).Attributes registers all
      (done ++ [statement]) := by
  refine ⟨fun name site hsite => ?_, fun _ => hattributes.defined_addLabel hopen,
    fun notice hnotice => ?_⟩
  · rw [site?_addLabel, Option.or_eq_some_iff] at hsite
    rcases hsite with hknown | ⟨hnone, hnew⟩
    · obtain ⟨before, first, after, rfl, hfirst⟩ := hattributes.sites name site hknown
      exact ⟨before, first, after ++ [statement], by simp, hfirst⟩
    · split at hnew
      next hlabel =>
        obtain rfl := Option.some.inj hnew
        refine ⟨done, statement, [], rfl, fun hmem => ?_, hlabel, rfl⟩
        have hsome := hattributes.defined hopen name hmem
        rw [hnone] at hsome
        cases hsome
      next => cases hnew
  · rcases notice_of_addLabel hnotice with hbefore | ⟨name, previous, hlabel, hsite, rfl⟩
    · exact hattributes.notices notice hbefore
    · obtain ⟨before, first, after, rfl, hfresh, hfirst, hplace⟩ :=
        hattributes.sites name previous hsite
      rw [List.append_assoc, List.cons_append] at hall
      rw [hplace]
      exact .duplicate hall hfresh hfirst hlabel

/-- An instruction adds notices about its operands or its size. -/
theorem addInstruction (hattributes : emission.Attributes registers all done)
    (hdefined : ∀ name ∈ labelsOf done, (emission.labels.site? name).isSome) {place : Place}
    {instruction : Instruction} (hinstruction : instruction ∈ instructionsOf all) :
    (emission.addInstruction registers place instruction).Attributes registers all done := by
  refine ⟨fun name site hsite => ?_, fun _ name hname => ?_, fun notice hnotice => ?_⟩
  · rw [site?_addInstruction] at hsite
    exact hattributes.sites name site hsite
  · rw [site?_addInstruction]
    exact hdefined name hname
  · rcases notice_of_addInstruction hnotice with hbefore | hregister | hkind
    · exact hattributes.notices notice hbefore
    · obtain ⟨operand, hoperand, index, hvalue, hcount, rfl⟩ := hregister
      exact .register hinstruction hoperand hvalue hcount
    · exact .other hkind

/-- A statement is blamed for what it adds. -/
theorem addStatement (hattributes : emission.Attributes registers all done)
    (hall : all = done ++ statement :: rest) :
    (emission.addStatement registers statement).Attributes registers all (done ++ [statement]) := by
  unfold Emission.addStatement
  split
  next hstopped =>
    -- nothing is added any more, not even a label
    refine ⟨fun name site hsite => ?_, fun hopen => ?_, hattributes.notices⟩
    · obtain ⟨before, first, after, rfl, hfirst⟩ := hattributes.sites name site hsite
      exact ⟨before, first, after ++ [statement], by simp, hfirst⟩
    · cases hstopped.symm.trans hopen
  next hstopped =>
    have hopen : emission.stopped = false := by simpa using hstopped
    have hlabelled := hattributes.addLabel hopen hall
    split
    next => exact hlabelled
    next instruction hinstruction =>
      refine hlabelled.addInstruction (hattributes.defined_addLabel hopen) ?_
      rw [hall]
      simp [instructionsOf, hinstruction]

end Emission.Attributes

/-- All that is noticed about statements is to blame on them. -/
theorem Emission.attributes_foldl (registers : Nat) (builder : Builder)
    {all done rest : List Statement} (hall : all = done ++ rest) :
    (done.foldl (Emission.addStatement registers) ⟨builder, .empty, [], false⟩).Attributes
      registers all done := by
  induction done using List.reverseRecOn generalizing rest with
  | nil =>
      refine ⟨fun name site hsite => ?_, by simp [labelsOf], by simp⟩
      simp [LabelTable.site?, LabelTable.empty] at hsite
  | append_singleton done statement ih =>
      rw [List.append_assoc, List.singleton_append] at hall
      rw [List.foldl_append]
      exact (ih hall).addStatement hall

/-- What stays open is reported where it is used, unless its target is refused. -/
theorem Emission.notice_of_resolve {labels : LabelTable} {builder : Builder}
    {uses : List LabelUse} :
    ∀ notice ∈ (uses.foldr (fun use done => Emission.resolve labels done use) (builder, [])).2,
      (∃ use ∈ uses, labels.site? use.name = none ∧
        notice = ⟨use.place, .unresolvedLabel use.name⟩) ∨
      notice.problem.kind ∈ [.malformed, .programTooLarge] := by
  induction uses with
  | nil => simp
  | cons use uses ih =>
      rw [List.foldr_cons]
      generalize uses.foldr _ _ = done at ih ⊢
      obtain ⟨filled, notices⟩ := done
      intro notice hnotice
      have holder (hbefore : notice ∈ notices) :
          (∃ other ∈ use :: uses, labels.site? other.name = none ∧
            notice = ⟨other.place, .unresolvedLabel other.name⟩) ∨
          notice.problem.kind ∈ [.malformed, .programTooLarge] := by
        refine (ih notice hbefore).imp_left ?_
        rintro ⟨other, hother, hrest⟩
        exact ⟨other, List.mem_cons_of_mem use hother, hrest⟩
      simp only [Emission.resolve] at hnotice
      split at hnotice
      next hsite =>
        rcases Notice.mem_of_mem_record hnotice with rfl | hbefore
        · exact .inl ⟨use, List.mem_cons_self, hsite, rfl⟩
        · exact holder hbefore
      next =>
        split at hnotice
        next => exact holder hnotice
        next =>
          rcases Notice.mem_of_mem_record hnotice with rfl | hbefore
          · exact .inr (by simp [Problem.kind])
          · exact holder hbefore
        next =>
          rcases Notice.mem_of_mem_record hnotice with rfl | hbefore
          · exact .inr (by simp [Problem.kind])
          · exact holder hbefore

/-- What is wrong with statements is about them. -/
theorem blames_emitStatements (registers : Nat) {statements : List Statement} {builder : Builder}
    (hbuilder : builder.code = #[])
    (hwell : ∀ instruction ∈ instructionsOf statements, instruction.WellFormed) :
    ∀ notice ∈ (emitStatements registers statements builder .empty).notices,
      Blames registers statements notice := by
  have hattributes := Emission.attributes_foldl registers builder (List.append_nil statements).symm
  have hfold := Emission.holds_foldl registers hbuilder hwell
  have hpending := Emission.pending_foldl registers statements builder
  simp only [emitStatements]
  generalize statements.foldl _ _ = emission at *
  split
  next hempty =>
    obtain ⟨-, haddress⟩ := hfold (List.isEmpty_iff.mp hempty)
    obtain ⟨builder, labels, notices, full⟩ := emission
    obtain rfl : notices = [] := List.isEmpty_iff.mp hempty
    simp only [Emission.finish, List.foldl_reverse]
    intro notice hnotice
    rcases Emission.notice_of_resolve notice hnotice with ⟨use, huse, hsite, rfl⟩ | hkind
    · obtain ⟨instruction, hinstruction, hoperand⟩ := hpending use huse
      refine .unresolved hinstruction hoperand rfl ?_
      rw [← labelAddress?_eq_none_iff, ← haddress]
      exact congrArg (Option.map LabelSite.address) hsite
    · exact .other hkind
  next => exact hattributes.notices

end Octet
