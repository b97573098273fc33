import Octet.Proofs.Assembler
import Octet.Proofs.Source.Complaints
import Octet.Proofs.Source.Objections

/-! # Where diagnostics point

Once a source is parsed, what is wrong with it are labels that are defined twice or not
at all, registers that are not there and programs that are too long. A diagnostic about
an operand has the place of that operand. One about a label that is defined twice has
the place of the statement that defines it again, and names the place of the statement
that defined it first. A statement has the place of its label only if it has no
instruction.
-/

namespace Octet

/-! ### Statements and their tokens -/

theorem place_of_operandOf_ok {token : Token} {operand : Operand}
    (hoperand : operandOf token = .ok operand) : operand.place = token.place := by
  unfold operandOf at hoperand
  repeat' split at hoperand
  all_goals cases hoperand
  all_goals rfl

/-- Every operand is read from a token in the position of an operand. -/
theorem exists_operand_of_operandsFrom {place : Place} {done operands : List Operand}
    {tokens : List Token} (hoperands : operandsFrom place done tokens = .ok operands) :
    ∀ operand ∈ operands, operand ∈ done ∨
      ∃ token, (token, .operand) ∈ tokens.zip (operandRoles tokens) ∧
        operandOf token = .ok operand := by
  intro operand hmem
  fun_induction operandsFrom place done tokens with
  | case1 done =>
      obtain rfl := Except.ok.inj hoperands
      exact .inl (List.mem_reverse.mp hmem)
  | case2 => cases hoperands
  | case3 done first found hfound =>
      obtain rfl := Except.ok.inj hoperands
      rcases List.mem_cons.mp (List.mem_reverse.mp hmem) with rfl | hbefore
      · exact .inr ⟨first, List.mem_cons_self, hfound⟩
      · exact .inl hbefore
  | case4 => cases hoperands
  | case5 => cases hoperands
  | case6 done first found hfound comma rest hcomma hsome ih =>
      rcases ih hoperands with hbefore | ⟨token, htoken, hoperand⟩
      · rcases List.mem_cons.mp hbefore with rfl | hearlier
        · exact .inr ⟨first, List.mem_cons_self, hfound⟩
        · exact .inl hearlier
      · exact .inr ⟨token, List.mem_cons_of_mem _ (List.mem_cons_of_mem _ htoken), hoperand⟩

theorem operandsFrom_of_instructionOf {name : Token} {rest : List Token}
    {instruction : Instruction} (hinstruction : instructionOf name rest = .ok instruction) :
    operandsFrom name.place [] rest = .ok instruction.operands := by
  simp only [instructionOf] at hinstruction
  split at hinstruction
  next => cases hinstruction
  next =>
    split at hinstruction
    next => cases hinstruction
    next =>
      split at hinstruction
      next => cases hinstruction
      next operands hoperands =>
        split at hinstruction
        next =>
          obtain rfl := Except.ok.inj hinstruction
          exact hoperands
        next => cases hinstruction

/-- What the tokens of a line say about its statement. -/
structure Describes (tokens : List Token) (statement : Statement) : Prop where
  label : ∀ name, statement.label = some name ↔
    ∃ token, Stands tokens token .label ∧ token.string = name
  name : ∀ name, Stands tokens name .name → statement.place = name.place
  place : (∀ name, ¬ Stands tokens name .name) →
    ∀ token, Stands tokens token .label → statement.place = token.place
  operands : ∀ instruction, statement.instruction = some instruction →
    ∀ operand ∈ instruction.operands,
      ∃ token, Stands tokens token .operand ∧ operandOf token = .ok operand

/-- A statement has the label in front of it, the place of its first token and the operands that
stand behind its name. -/
theorem of_labelledStatement {place : Place} {label : Option String} {tokens : List Token}
    {statement : Statement} (hstatement : labelledStatement place label tokens = .ok statement) :
    statement.label = label ∧
      ((∀ name rest, tokens = name :: rest → statement.place = name.place) ∧
        (tokens = [] → statement.place = place)) ∧
      ∀ instruction, statement.instruction = some instruction →
        ∀ operand ∈ instruction.operands,
          ∃ token, (token, .operand) ∈ tokens.zip (instructionRoles tokens) ∧
            operandOf token = .ok operand := by
  cases tokens with
  | nil =>
      obtain rfl := Except.ok.inj hstatement
      exact ⟨rfl, ⟨by simp, fun _ => rfl⟩, by simp⟩
  | cons name rest =>
      simp only [labelledStatement] at hstatement
      split at hstatement
      next => cases hstatement
      next instruction hinstruction =>
        obtain rfl := Except.ok.inj hstatement
        refine ⟨rfl, ⟨?_, by simp⟩, ?_⟩
        · rintro _ _ ⟨⟩
          rfl
        rintro _ ⟨⟩ operand hoperand
        have hread := operandsFrom_of_instructionOf hinstruction
        rcases exists_operand_of_operandsFrom hread operand hoperand with hnone | htoken
        · cases hnone
        · obtain ⟨token, hmem, hvalue⟩ := htoken
          exact ⟨token, List.mem_cons_of_mem _ hmem, hvalue⟩

theorem describes_of_instruction {tokens : List Token} {place : Place} {statement : Statement}
    (hroles : lineRoles tokens = instructionRoles tokens)
    (hstatement : labelledStatement place none tokens = .ok statement) :
    Describes tokens statement := by
  obtain ⟨hlabel, hplace, hoperands⟩ := of_labelledStatement hstatement
  have hunlabelled (token : Token) : ¬ Stands tokens token .label := by
    rw [Stands, hroles]
    exact fun hmem => label_not_mem_instructionRoles tokens (List.of_mem_zip hmem).2
  refine ⟨fun name => ?_, fun name hname => ?_, fun _ token htoken => ?_, ?_⟩
  · rw [hlabel]
    refine iff_of_false (by simp) ?_
    rintro ⟨token, htoken, -⟩
    exact hunlabelled token htoken
  · rw [Stands, hroles] at hname
    obtain ⟨rest, rfl⟩ := name_mem_zip_iff.mp hname
    exact hplace.1 name rest rfl
  · exact absurd htoken (hunlabelled token)
  · intro instruction hinstruction operand hoperand
    simp only [Stands, hroles]
    exact hoperands instruction hinstruction operand hoperand

theorem describes_of_label {first second : Token} {rest : List Token} {statement : Statement}
    (hkinds : first.kind = .identifier ∧ second.kind = .single ':')
    (hstatement : labelledStatement first.place (some first.string) rest = .ok statement) :
    Describes (first :: second :: rest) statement := by
  obtain ⟨hlabel, hplace, hoperands⟩ := of_labelledStatement hstatement
  have hroles := @lineRoles_of_label first second rest hkinds
  have honly {token : Token} (hstands : Stands (first :: second :: rest) token .label) :
      token = first := by
    obtain ⟨colon, others, hsame, -⟩ := hstands.of_label
    exact (List.cons.inj hsame).1.symm
  have hname {name : Token} : Stands (first :: second :: rest) name .name ↔
      ∃ others, rest = name :: others := by
    rw [← name_mem_zip_iff, Stands, hroles]
    simp
  refine ⟨fun name => ?_, fun name hstands => ?_, fun hnone token hstands => ?_, ?_⟩
  · rw [hlabel, Option.some.injEq]
    constructor
    · intro hsame
      refine ⟨first, ?_, hsame⟩
      rw [Stands, hroles]
      exact List.mem_cons_self
    · rintro ⟨token, hstands, rfl⟩
      rw [honly hstands]
  · obtain ⟨others, hrest⟩ := hname.mp hstands
    exact hplace.1 name others hrest
  · rw [honly hstands]
    refine hplace.2 ?_
    cases rest with
    | nil => rfl
    | cons name others => exact absurd (hname.mpr ⟨others, rfl⟩) (hnone name)
  · intro instruction hinstruction operand hoperand
    obtain ⟨token, hmem, hvalue⟩ := hoperands instruction hinstruction operand hoperand
    refine ⟨token, ?_, hvalue⟩
    rw [Stands, hroles]
    exact List.mem_cons_of_mem _ (List.mem_cons_of_mem _ hmem)

/-- Every statement describes the tokens of its line. -/
theorem describes_of_statementOf {tokens : List Token} {statement : Statement}
    (hstatement : statementOf tokens = .ok (some statement)) : Describes tokens statement := by
  unfold statementOf at hstatement
  split at hstatement
  next => cases hstatement
  next only =>
    obtain ⟨_, hbody, ⟨⟩⟩ := map_eq_ok_iff.mp hstatement
    exact describes_of_instruction rfl hbody
  next first second rest =>
    split at hstatement
    next hkinds =>
      split at hstatement
      next => cases hstatement
      next =>
        obtain ⟨_, hbody, ⟨⟩⟩ := map_eq_ok_iff.mp hstatement
        exact describes_of_label hkinds hbody
    next hkinds =>
      obtain ⟨_, hbody, ⟨⟩⟩ := map_eq_ok_iff.mp hstatement
      exact describes_of_instruction (if_neg hkinds) hbody

/-! ### Lines -/

/-- The token is the label that the line defines. -/
def SourceLine.Defines (line : SourceLine) (label : String) (token : Token) : Prop :=
  Stands line.tokens token .label ∧ token.string = label

/-- The line has an instruction. -/
def SourceLine.HasInstruction (line : SourceLine) : Prop := ∃ name, Stands line.tokens name .name

/-- The statement that a line is parsed as, if it is one. -/
def SourceLine.statement? (line : SourceLine) : Option Statement :=
  match statementOf line.tokens with
  | .ok statement => statement
  | .error _ => none

/-- A source without notices has one statement for each line that has one. -/
theorem Source.statements_eq_filterMap {source : Source} (hparsed : source.parse.notices = []) :
    source.parse.statements = source.lines.filterMap SourceLine.statement? := by
  rw [List.filterMap_eq_flatMap_toList, statements_parse hparsed]
  refine List.flatMap_congr fun line _ => ?_
  unfold SourceLine.statement? parseLine
  cases statementOf line.tokens <;> rfl

theorem SourceLine.describes {line : SourceLine} {statement : Statement}
    (hstatement : line.statement? = some statement) : Describes line.tokens statement := by
  unfold SourceLine.statement? at hstatement
  split at hstatement
  next found hfound => exact describes_of_statementOf (hstatement ▸ hfound)
  next => cases hstatement

/-- The label of a line comes before the name of its instruction. -/
theorem Ascending.label_lt_name {tokens : List Token} (hascending : Ascending tokens)
    {token name : Token} (htoken : Stands tokens token .label) (hname : Stands tokens name .name) :
    token.place.offset < name.place.offset := by
  obtain ⟨colon, rest, rfl, hkinds⟩ := htoken.of_label
  rw [Stands, lineRoles_of_label hkinds] at hname
  have hbehind : (name, .name) ∈ rest.zip (instructionRoles rest) := by simpa using hname
  refine List.rel_of_pairwise_cons hascending ?_
  exact List.mem_cons_of_mem colon (List.of_mem_zip hbehind).1

/-- The place is that of the label `token` on the line just if the line has no instruction.
Otherwise it is that of the name of the instruction. -/
def SourceLine.Locates (line : SourceLine) (token : Token) (place : Place) : Prop :=
  (place = token.place ↔ ¬ line.HasInstruction) ∧
    ∀ name, Stands line.tokens name .name → place = name.place

/-- The place of a statement is that of its instruction, if it has one, and else that of its label.
-/
theorem SourceLine.locates {line : SourceLine} (hascending : Ascending line.tokens)
    {statement : Statement} (hstatement : line.statement? = some statement) {token : Token}
    (htoken : Stands line.tokens token .label) : line.Locates token statement.place := by
  have hdescribes := SourceLine.describes hstatement
  refine ⟨⟨?_, ?_⟩, hdescribes.name⟩
  · rintro hsame ⟨name, hname⟩
    have hlt := hascending.label_lt_name htoken hname
    rw [← hdescribes.name name hname, hsame] at hlt
    exact Nat.lt_irrefl _ hlt
  · exact fun hnone => hdescribes.place (fun name hname => hnone ⟨name, hname⟩) token htoken

/-- A line that defines a label has a statement with that label. -/
theorem Source.exists_statement_of_defines {source : Source}
    (hparsed : source.parse.notices = []) {line : SourceLine} (hline : line ∈ source.lines)
    {label : String} {token : Token} (hdefines : line.Defines label token) :
    ∃ statement, line.statement? = some statement ∧ statement.label = some label := by
  obtain ⟨-, words, -, hsays⟩ := says_of_parse hparsed
  obtain ⟨said, hsaid⟩ := exists_says_of_mem hsays hline
  obtain ⟨result, hresult⟩ :=
    hsaid.exists_statementOf (notices_parse_eq_nil_iff.mp hparsed line hline)
  obtain ⟨colon, rest, htokens, -⟩ := hdefines.1.of_label
  obtain ⟨statement, rfl⟩ := exists_of_statementOf (by simp [htokens]) hresult
  refine ⟨statement, by simp only [SourceLine.statement?, hresult], ?_⟩
  exact ((describes_of_statementOf hresult).label label).mpr ⟨token, hdefines⟩

/-- A label that no statement defines is defined by none of the lines. -/
theorem Source.not_defines {source : Source} (hparsed : source.parse.notices = [])
    {lines : List SourceLine} (hlines : lines ⊆ source.lines) {label : String}
    (hmissing : label ∉ labelsOf (lines.filterMap SourceLine.statement?)) :
    ∀ line ∈ lines, ∀ token, ¬ line.Defines label token := by
  intro line hline token hdefines
  obtain ⟨statement, hstatement, hlabel⟩ :=
    exists_statement_of_defines hparsed (hlines hline) hdefines
  exact hmissing (List.mem_filterMap.mpr
    ⟨statement, List.mem_filterMap.mpr ⟨line, hline, hstatement⟩, hlabel⟩)

/-- Every operand of a program stands somewhere in the source. -/
theorem Source.exists_token_of_operand {source : Source} {instruction : Instruction}
    (hinstruction : instruction ∈ instructionsOf source.parse.statements) {operand : Operand}
    (hoperand : operand ∈ instruction.operands) :
    ∃ line ∈ source.lines, ∃ token, Stands line.tokens token .operand ∧
      operandOf token = .ok operand := by
  obtain ⟨statement, hmem, hsome⟩ := List.mem_filterMap.mp hinstruction
  obtain ⟨line, hline, hstatement⟩ := exists_line_of_mem_statements hmem
  exact ⟨line, hline,
    (describes_of_statementOf hstatement).operands instruction hsome operand hoperand⟩

theorem registerIndex?_of_operandOf {token : Token} {operand : Operand} {index : UInt8}
    (hoperand : operandOf token = .ok operand) (hvalue : operand.value = .register index) :
    registerIndex? token.chars = some index.toNat := by
  unfold operandOf at hoperand
  repeat' split at hoperand
  all_goals cases hoperand
  all_goals cases hvalue
  next number hnumber hlt =>
    rw [hnumber, Nat.toUInt8_eq, UInt8.toNat_ofNat_of_lt' hlt]

theorem string_of_operandOf {token : Token} {operand : Operand} {name : String}
    (hoperand : operandOf token = .ok operand) (hvalue : operand.value = .label name) :
    token.string = name := by
  unfold operandOf at hoperand
  repeat' split at hoperand
  all_goals cases hoperand
  all_goals cases hvalue
  rfl

/-! ### Diagnostics -/

/-- If all lines can be read, the diagnostics come from emitting the statements. -/
theorem Assembler.exists_notice_of_assemble {registers : Nat} {assembler : Assembler}
    (hready : assembler.Ready registers) {source : Source} (hparsed : source.parse.notices = [])
    {name : String} {diagnostics : List Diagnostic}
    (hresult : (assembler.assemble name source).result = .error diagnostics)
    {diagnostic : Diagnostic} (hmem : diagnostic ∈ diagnostics) :
    ∃ notice ∈ (emitStatements registers source.parse.statements assembler.builder .empty).notices,
      diagnostic = ⟨name, notice.place, notice.problem⟩ := by
  obtain ⟨count, verbose, builder, labels⟩ := assembler
  obtain ⟨rfl, -, rfl⟩ : count = registers ∧ builder.code = #[] ∧ labels = .empty :=
    ⟨hready.registers, hready.code, hready.labels⟩
  simp only [assemble, hparsed, List.isEmpty_nil, ↓reduceIte] at hresult
  split at hresult
  next => cases hresult
  next =>
    obtain rfl := Except.error.inj hresult
    obtain ⟨notice, hnotice, rfl⟩ := List.mem_map.mp hmem
    exact ⟨notice, List.mem_reverse.mp hnotice, rfl⟩

/-- A label that two statements define stands on two lines, the first of which is the first line
that defines it. -/
theorem Source.exists_lines_of_split {source : Source} (hparsed : source.parse.notices = [])
    {before between after : List Statement} {first again : Statement} {name : String}
    (hsplit : source.parse.statements = before ++ first :: (between ++ again :: after))
    (hfresh : name ∉ labelsOf before) (hfirst : first.label = some name)
    (hagain : again.label = some name) :
    ∃ front definition middle redefinition rest earlier token,
      source.lines = front ++ definition :: (middle ++ redefinition :: rest) ∧
      (∀ line ∈ front, ∀ other, ¬ line.Defines name other) ∧
      definition.Defines name earlier ∧ redefinition.Defines name token ∧
      definition.statement? = some first ∧ redefinition.statement? = some again := by
  rw [statements_eq_filterMap hparsed] at hsplit
  -- lines that make no statement can stand before each of the two: `skipped` and `passed`
  obtain ⟨front, later, hlines, rfl, hlater⟩ := List.filterMap_eq_append_iff.mp hsplit
  obtain ⟨skipped, definition, others, rfl, hskipped, hdefinition, hothers⟩ :=
    List.filterMap_eq_cons_iff.mp hlater
  obtain ⟨middle, behind, rfl, rfl, hbehind⟩ := List.filterMap_eq_append_iff.mp hothers
  obtain ⟨passed, redefinition, rest, rfl, hpassed, hredefinition, -⟩ :=
    List.filterMap_eq_cons_iff.mp hbehind
  obtain ⟨earlier, hearlier⟩ := ((SourceLine.describes hdefinition).label name).mp hfirst
  obtain ⟨token, htoken⟩ := ((SourceLine.describes hredefinition).label name).mp hagain
  refine ⟨front ++ skipped, definition, middle ++ passed, redefinition, rest, earlier, token,
    by simp [hlines], ?_, hearlier, htoken, hdefinition, hredefinition⟩
  refine not_defines hparsed (fun line hline => ?_) ?_
  · rw [hlines]
    simp only [List.mem_append] at hline ⊢
    tauto
  · have hnone : skipped.filterMap SourceLine.statement? = [] :=
      List.filterMap_eq_nil_iff.mpr hskipped
    rwa [List.filterMap_append, hnone, List.append_nil]

/-- What is wrong with a source that has been parsed is reported at the operand that it is about, if
it is about one. A label that is defined again is reported on the line that does so, with the line
that defined it first, but at the place of the label only where that line has no instruction. -/
theorem place_of_diagnostic {registers : Int} {assembler : Assembler}
    (hassembler : assembler.Reachable registers) {source : Source}
    (hparsed : source.parse.notices = []) {name : String} {diagnostics : List Diagnostic}
    (hresult : (assembler.assemble name source).result = .error diagnostics)
    {diagnostic : Diagnostic} (hmem : diagnostic ∈ diagnostics) :
    (∀ label previous, diagnostic.problem = .duplicateLabel label previous →
      diagnostic.message = label ++ ", previous definition here: " ++ previous.text name ∧
      ∃ front definition middle redefinition rest earlier token,
        source.lines = front ++ definition :: (middle ++ redefinition :: rest) ∧
        (∀ line ∈ front, ∀ other, ¬ line.Defines label other) ∧
        definition.Defines label earlier ∧ definition.Locates earlier previous ∧
        redefinition.Defines label token ∧ redefinition.Locates token diagnostic.place) ∧
    (∀ index count, diagnostic.problem = .invalidRegister index count →
      count = registers.toNat ∧ count ≤ index ∧
      ∃ line ∈ source.lines, ∃ token, Stands line.tokens token .operand ∧
        registerIndex? token.chars = some index ∧ diagnostic.place = token.place) ∧
    ∀ label, diagnostic.problem = .unresolvedLabel label →
      (∀ line ∈ source.lines, ∀ token, ¬ line.Defines label token) ∧
      ∃ line ∈ source.lines, ∃ token, Stands line.tokens token .operand ∧
        token.string = label ∧ diagnostic.place = token.place := by
  have hready := hassembler.ready
  obtain ⟨notice, hnotice, rfl⟩ := Assembler.exists_notice_of_assemble hready hparsed hresult hmem
  have hblames := blames_emitStatements _ hready.code (wellFormed_of_parse source) notice hnotice
  cases hblames with
  | duplicate hsplit hfresh hfirst hagain =>
      refine ⟨?_, by rintro _ _ ⟨⟩, by rintro _ ⟨⟩⟩
      rintro _ _ ⟨⟩
      obtain ⟨front, definition, middle, redefinition, rest, earlier, token, hlines, hfront,
        hearlier, htoken, hstatement, hagain⟩ :=
          Source.exists_lines_of_split hparsed hsplit hfresh hfirst hagain
      have hascending (line : SourceLine) (hline : line = definition ∨ line = redefinition) :
          Ascending line.tokens := by
        refine @Source.ascending_of_mem source line ?_
        rcases hline with rfl | rfl <;> simp [hlines]
      exact ⟨rfl, front, definition, middle, redefinition, rest, earlier, token, hlines, hfront,
        hearlier, SourceLine.locates (hascending _ (.inl rfl)) hstatement hearlier.1,
        htoken, SourceLine.locates (hascending _ (.inr rfl)) hagain htoken.1⟩
  | register hinstruction hoperand hvalue hcount =>
      refine ⟨by rintro _ _ ⟨⟩, ?_, by rintro _ ⟨⟩⟩
      rintro _ _ ⟨⟩
      obtain ⟨line, hline, token, hstands, htoken⟩ :=
        Source.exists_token_of_operand hinstruction hoperand
      exact ⟨rfl, hcount, line, hline, token, hstands, registerIndex?_of_operandOf htoken hvalue,
        place_of_operandOf_ok htoken⟩
  | unresolved hinstruction hoperand hvalue hmissing =>
      refine ⟨by rintro _ _ ⟨⟩, by rintro _ _ ⟨⟩, ?_⟩
      rintro _ ⟨⟩
      obtain ⟨line, hline, token, hstands, htoken⟩ :=
        Source.exists_token_of_operand hinstruction hoperand
      rw [Source.statements_eq_filterMap hparsed] at hmissing
      exact ⟨Source.not_defines hparsed (List.Subset.refl source.lines) hmissing, line, hline,
        token, hstands, string_of_operandOf htoken hvalue, place_of_operandOf_ok htoken⟩
  | other hkind =>
      refine ⟨fun label previous hproblem => ?_, fun index count hproblem => ?_,
        fun label hproblem => ?_⟩
      all_goals
        obtain ⟨place, problem⟩ := notice
        subst hproblem
        simp [Problem.kind] at hkind

/-- A source that defines a label on two lines, each of which has an instruction. -/
def redefinedLabel : Source := .ofBytes (utf8Bytes "a: nop\na: nop") none

/-- A source that uses a label that it does not define. -/
def undefinedLabel : Source := .ofBytes (utf8Bytes "nop\n\njmp nowhere") none

/-- A source that uses the fifth register. -/
def fifthRegister : Source := .ofBytes (utf8Bytes "nop\nmov r4, 1") none

/-- An assembler for machines with four registers. -/
def fourRegisters : Assembler := ⟨4, false, .empty, .empty⟩

theorem parse_redefinedLabel :
    redefinedLabel.parse.notices = [] ∧ redefinedLabel.parse.statements =
      [⟨⟨3, 1, 4⟩, some "a", some ⟨.nop, []⟩⟩, ⟨⟨10, 2, 4⟩, some "a", some ⟨.nop, []⟩⟩] := by
  decide +kernel

theorem parse_undefinedLabel :
    undefinedLabel.parse.notices = [] ∧ undefinedLabel.parse.statements =
      [⟨⟨0, 1, 1⟩, none, some ⟨.nop, []⟩⟩,
        ⟨⟨5, 3, 1⟩, none, some ⟨.branch .always, [⟨.label "nowhere", ⟨9, 3, 5⟩⟩]⟩⟩] := by
  decide +kernel

theorem emit_nop : Builder.empty.emit Opcode.nop.toByte [] = (.ok (), ⟨#[0], 64⟩) := by
  decide +kernel

theorem assemble_redefinedLabel :
    (fourRegisters.assemble "" redefinedLabel).result =
      .error [⟨"", ⟨10, 2, 4⟩, .duplicateLabel "a" ⟨3, 1, 4⟩⟩] := by
  have hsecond : Builder.emit ⟨#[0], 64⟩ Opcode.nop.toByte [] = (.ok (), ⟨#[0, 0], 64⟩) := rfl
  simp [Assembler.assemble, fourRegisters, parse_redefinedLabel, emitStatements,
    Emission.addStatement, Emission.stopped, Emission.addLabel, LabelTable.define, LabelTable.site?,
    LabelTable.empty, Emission.addInstruction, emit_nop, hsecond]

theorem assemble_undefinedLabel :
    (fourRegisters.assemble "" undefinedLabel).result =
      .error [⟨"", ⟨9, 3, 5⟩, .unresolvedLabel "nowhere"⟩] := by
  have hsecond : Builder.emit ⟨#[0], 64⟩ (Opcode.branch .always).toByte [0, 0] =
      (.ok (), ⟨#[0, 34, 0, 0], 64⟩) := rfl
  simp [Assembler.assemble, fourRegisters, parse_undefinedLabel, emitStatements,
    Emission.addStatement, Emission.stopped, Emission.addLabel, LabelTable.site?, LabelTable.empty,
    LabelTable.reference, Emission.addInstruction, OperandBytes.add, addressBytes, emit_nop,
    hsecond, Emission.finish, Emission.resolve, Notice.record]

theorem assemble_fifthRegister :
    (fourRegisters.assemble "" fifthRegister).result =
      .error [⟨"", ⟨8, 2, 5⟩, .invalidRegister 4 4⟩] := by
  have hcode : (fourRegisters.assemble "" fifthRegister).result.map Cluster.code =
      .error [⟨"", ⟨8, 2, 5⟩, .invalidRegister 4 4⟩] := by
    decide +kernel
  exact map_eq_error_iff.mp hcode

/-- A label that is defined twice, a register that is not there and a label that is not defined,
each with the places that the diagnostics give. -/
theorem place_of_diagnostic_of_four :
    (∃ front definition middle redefinition rest earlier token,
      redefinedLabel.lines = front ++ definition :: (middle ++ redefinition :: rest) ∧
      definition.Defines "a" earlier ∧ definition.Locates earlier ⟨3, 1, 4⟩ ∧
      redefinition.Defines "a" token ∧ redefinition.Locates token ⟨10, 2, 4⟩) ∧
    (∃ line ∈ fifthRegister.lines, ∃ token, Stands line.tokens token .operand ∧
      registerIndex? token.chars = some 4 ∧ ⟨8, 2, 5⟩ = token.place) ∧
    ∃ line ∈ undefinedLabel.lines, ∃ token, Stands line.tokens token .operand ∧
      token.string = "nowhere" ∧ ⟨9, 3, 5⟩ = token.place := by
  have hassembler : Assembler.Reachable 4 fourRegisters := .new rfl
  refine ⟨?_, ?_, ?_⟩
  · obtain ⟨hduplicate, -⟩ := place_of_diagnostic hassembler parse_redefinedLabel.1
      assemble_redefinedLabel (List.mem_singleton_self _)
    obtain ⟨-, front, definition, middle, redefinition, rest, earlier, token, hlines, -, hplaces⟩ :=
      hduplicate "a" ⟨3, 1, 4⟩ rfl
    exact ⟨front, definition, middle, redefinition, rest, earlier, token, hlines, hplaces⟩
  · obtain ⟨-, hregister, -⟩ := place_of_diagnostic hassembler (by decide +kernel)
      assemble_fifthRegister (List.mem_singleton_self _)
    exact (hregister 4 4 rfl).2.2
  · obtain ⟨-, -, hunresolved⟩ := place_of_diagnostic hassembler parse_undefinedLabel.1
      assemble_undefinedLabel (List.mem_singleton_self _)
    exact (hunresolved "nowhere" rfl).2

/-- The label that is defined twice is reported at the instructions behind it, where it does not
stand. -/
theorem redefinedLabel_misplaced :
    redefinedLabel.parse.notices = [] ∧
      (fourRegisters.assemble "" redefinedLabel).result =
        .error [⟨"", ⟨10, 2, 4⟩, .duplicateLabel "a" ⟨3, 1, 4⟩⟩] ∧
      (redefinedLabel.tokens.filter fun token => token.string = "a").map Token.place =
        [⟨0, 1, 1⟩, ⟨7, 2, 1⟩] :=
  ⟨parse_redefinedLabel.1, assemble_redefinedLabel, by decide +kernel⟩

end Octet
