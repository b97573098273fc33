import Octet.Disassembly
import Octet.Proofs.Assembler
import Octet.Proofs.Source.TwoPass
import Octet.Proofs.Source.Wording

/-! # Assembling a disassembly

The text that shows a program becomes a source of that program when every line gets a
label that names its offset, and branches go to these labels. The names and operands
of the text are those that the assembler reads, the form of an instruction can be told
from its operands, and a label named after an offset has that offset as its address.
-/

namespace Octet

/-! ### The source of a program -/

/-- The label that stands before the instruction at an offset. -/
def offsetLabel (offset : Nat) : String := "L" ++ toString offset

/-- The pieces that show the instruction at an offset, a branch with a label as its target. -/
def assemblyPieces (code : Array UInt8) (offset : Nat) : List String :=
  let pieces := (disassembleAt? code offset).elim [] Prod.fst
  if (Opcode.ofByte? (code.getD offset 0)).any Opcode.isBranch then pieces.modify 2 ("L" ++ ·)
  else pieces

/-- The line of an offset, which has no instruction behind the end of the program. -/
def assemblyLine (code : Array UInt8) (offset : Nat) : String :=
  offsetLabel offset ++ ":" ++ String.join (assemblyPieces code offset)

/-- The offsets of the instructions of a program, and its end. -/
def assemblyOffsets (code : Array UInt8) : List Nat :=
  (Cluster.ofCode code).offsets.toList ++ [code.size]

/-- A source of a program: a line for each instruction, and one for the end. -/
def assemblyText (code : Array UInt8) : String :=
  String.join ((assemblyOffsets code).map fun offset => assemblyLine code offset ++ "\n")

/-! ### What the source says -/

def operandValueAt (code : Array UInt8) (position : Nat) : OperandKind → OperandValue
  | .register => .register (code.getD position 0)
  | .immediate => .immediate (code.getD position 0)
  | .label => .label (offsetLabel (targetAt code position))

/-- The operands from a position on, a branch target being the label of its offset. -/
def operandValues (code : Array UInt8) (position : Nat) : List OperandKind → List OperandValue
  | [] => []
  | kind :: kinds =>
    operandValueAt code position kind :: operandValues code (position + kind.size) kinds

/-- The complete instruction at an offset. -/
def instructionAt? (code : Array UInt8) (offset : Nat) : Option (Opcode × List OperandValue) :=
  (instructionSize? code offset).bind fun _ =>
    (Opcode.ofByte? (code.getD offset 0)).map fun opcode =>
      (opcode, operandValues code (offset + 1) opcode.operands)

/-- Where the table has an instruction, one can be read, with its operands. -/
theorem exists_instructionAt? {code : Array UInt8} {offset size : Nat}
    (hsize : instructionSize? code offset = some size) :
    ∃ opcode, Opcode.ofByte? (code.getD offset 0) = some opcode ∧
      offset + opcode.size ≤ code.size ∧ opcode.size = size ∧
      instructionAt? code offset =
        some (opcode, operandValues code (offset + 1) opcode.operands) := by
  obtain ⟨opcode, hopcode, hsame, hfits⟩ := exists_opcode_of_instructionSize? hsize
  refine ⟨opcode, hopcode, hfits, hsame, ?_⟩
  rw [instructionAt?, hsize, hopcode]
  rfl

theorem values_of_instructionAt? {code : Array UInt8} {offset : Nat} {opcode : Opcode}
    {values : List OperandValue}
    (hinstruction : instructionAt? code offset = some (opcode, values)) :
    values = operandValues code (offset + 1) opcode.operands := by
  obtain ⟨_, -, hsome⟩ := Option.bind_eq_some_iff.mp hinstruction
  obtain ⟨_, -, hsame⟩ := Option.map_eq_some_iff.mp hsome
  obtain ⟨rfl, rfl⟩ := Prod.mk.inj hsame
  rfl

theorem map_kind_operandValues (code : Array UInt8) (position : Nat) (kinds : List OperandKind) :
    (operandValues code position kinds).map OperandValue.kind = kinds := by
  induction kinds generalizing position with
  | nil => rfl
  | cons kind kinds ih =>
      rw [operandValues, List.map_cons, ih]
      cases kind <;> rfl

theorem toList_offsetLabel (offset : Nat) :
    (offsetLabel offset).toList = 'L' :: Nat.toDigits 10 offset := by
  rw [offsetLabel, String.toList_append, toList_toString]
  rfl

theorem registerIndex?_offsetLabel (offset : Nat) :
    registerIndex? (offsetLabel offset).toList = none := by
  rw [toList_offsetLabel]
  obtain ⟨first, rest, hdigits, -⟩ := exists_toDigits offset
  simp [hdigits, registerIndex?]

/-- No label among the operands is taken for a register. -/
theorem plain_operandValues {code : Array UInt8} {position : Nat} {kinds : List OperandKind} :
    ∀ value ∈ operandValues code position kinds, value.Plain := by
  induction kinds generalizing position with
  | nil => simp [operandValues]
  | cons kind kinds ih =>
      refine List.forall_mem_cons.mpr ⟨?_, ih⟩
      cases kind with
      | register | immediate => trivial
      | label => exact registerIndex?_offsetLabel _

/-! ### The words of the source -/

/-- An operand in the source of a program. -/
def assemblyOperand (code : Array UInt8) (position : Nat) : OperandKind → String
  | .label => "L" ++ operandText code position .label
  | kind => operandText code position kind

/-- Operands in the source of a program, each behind its separator. -/
def assemblyOperands (code : Array UInt8) (position : Nat) (separator : String) :
    List OperandKind → List String
  | [] => []
  | kind :: kinds =>
    separator :: assemblyOperand code position kind
      :: assemblyOperands code (position + kind.size) ", " kinds

/-- Operands without a branch target are printed as in a listing. -/
theorem operandPieces_of_not_mem {code : Array UInt8} {position : Nat} {separator : String}
    {kinds : List OperandKind} (hnot : .label ∉ kinds) :
    (operandPieces code position separator kinds).1 =
      assemblyOperands code position separator kinds := by
  induction kinds generalizing position separator with
  | nil => rfl
  | cons kind kinds ih =>
      rw [List.mem_cons, not_or] at hnot
      rw [assemblyOperands, ← ih hnot.2]
      cases kind with
      | register | immediate => rfl
      | label => exact absurd rfl hnot.1

/-- An instruction is printed as its name and its operands. -/
theorem assemblyPieces_of_ofByte? {code : Array UInt8} {offset : Nat} {opcode : Opcode}
    (hopcode : Opcode.ofByte? (code.getD offset 0) = some opcode)
    (hfits : offset + opcode.size ≤ code.size) :
    assemblyPieces code offset =
      opcode.name :: assemblyOperands code (offset + 1) " " opcode.operands := by
  have hlt : offset < code.size := by
    have : 0 < opcode.size := by unfold Opcode.size; omega
    omega
  have hbyte : code[offset]? = some (code.getD offset 0) := by simp [hlt]
  have hshown : (disassembleAt? code offset).elim [] Prod.fst =
      opcode.name :: (operandPieces code (offset + 1) " " opcode.operands).1 := by
    simp only [disassembleAt?, hbyte, Option.map_some, instructionPieces, hopcode,
      if_neg (Nat.not_lt.mpr hfits), Option.elim_some]
  unfold assemblyPieces
  rw [hshown, hopcode]
  -- only a branch has a label, as its one operand, so that the third piece is its target
  cases opcode with
  | branch condition => rfl
  | nop | halt | unary | pop | peek | drop | input =>
      exact congrArg _ (operandPieces_of_not_mem (by simp [Opcode.operands]))
  | binary op mode | push mode | compare mode | write channel style mode =>
      refine congrArg _ (operandPieces_of_not_mem ?_)
      cases mode <;> simp [Opcode.operands, Mode.kind]

theorem assemblyPieces_of_le {code : Array UInt8} {offset : Nat} (hle : code.size ≤ offset) :
    assemblyPieces code offset = [] := by
  simp [assemblyPieces, disassembleAt?, hle]

section Words

variable {code : Array UInt8}

/-- A letter with a number is read as a name. -/
theorem reads_numbered {letter : Char} (hletter : letter.isAlpha = true) {text : List Char}
    {words : List Word} (hends : EndsWord text) (hrest : Reads text words) (number : Nat) :
    Reads (letter :: Nat.toDigits 10 number ++ text)
      (⟨.identifier, letter :: Nat.toDigits 10 number⟩ :: words) := by
  refine .name hletter ?_ hends hrest
  intro c hc
  exact isAlphanum_of_isDigit (isDigit_of_mem_decimal hc)

theorem reads_offsetLabel {text : List Char} {words : List Word} (hends : EndsWord text)
    (hrest : Reads text words) (offset : Nat) :
    Reads ((offsetLabel offset).toList ++ text)
      (⟨.identifier, (offsetLabel offset).toList⟩ :: words) := by
  rw [toList_offsetLabel]
  exact reads_numbered (by decide) hends hrest offset

/-- An operand of the source is the word of its value. -/
theorem reads_assemblyOperand {text : List Char} {words : List Word} (hends : EndsWord text)
    (hrest : Reads text words) (position : Nat) (kind : OperandKind) :
    Reads ((assemblyOperand code position kind).toList ++ text)
      ((operandValueAt code position kind).word :: words) := by
  cases kind with
  | register =>
      simp only [assemblyOperand, operandText, String.toList_append, toList_toString]
      exact reads_numbered (by decide) hends hrest _
  | immediate =>
      simp only [assemblyOperand, operandText, toList_toString]
      exact .number hends hrest
  | label => exact reads_offsetLabel hends hrest _

theorem toList_assemblyOperands (position : Nat) (separator : String) (kind : OperandKind)
    (kinds : List OperandKind) :
    (String.join (assemblyOperands code position separator (kind :: kinds))).toList =
      separator.toList ++ ((assemblyOperand code position kind).toList ++
        (String.join (assemblyOperands code (position + kind.size) ", " kinds)).toList) := by
  rw [assemblyOperands, String.join_cons, String.join_cons, String.toList_append,
    String.toList_append]

theorem endsWord_assemblyOperands (position : Nat) {separator : String}
    (hseparator : separator = " " ∨ separator = ", ") (kinds : List OperandKind) :
    EndsWord (String.join (assemblyOperands code position separator kinds)).toList := by
  cases kinds with
  | nil => simp [assemblyOperands, EndsWord]
  | cons kind kinds =>
      rw [toList_assemblyOperands]
      rcases hseparator with rfl | rfl <;> simp [EndsWord]

/-- Operands behind the first one are read back, each with its comma. -/
theorem reads_furtherOperands (position : Nat) (kinds : List OperandKind) :
    Reads (String.join (assemblyOperands code position ", " kinds)).toList
      ((operandValues code position kinds).flatMap fun value => [commaWord, value.word]) := by
  induction kinds generalizing position with
  | nil => exact .done
  | cons kind kinds ih =>
      rw [toList_assemblyOperands]
      refine .mark (.inr rfl) (.blank ?_)
      exact reads_assemblyOperand (endsWord_assemblyOperands _ (.inr rfl) kinds) (ih _) position
        kind

/-- The operands of the source are the words of their values. -/
theorem reads_assemblyOperands (position : Nat) (kinds : List OperandKind) :
    Reads (String.join (assemblyOperands code position " " kinds)).toList
      (operandWords (operandValues code position kinds)) := by
  cases kinds with
  | nil => exact .done
  | cons kind kinds =>
      rw [toList_assemblyOperands]
      refine .blank ?_
      exact reads_assemblyOperand (endsWord_assemblyOperands _ (.inr rfl) kinds)
        (reads_furtherOperands _ kinds) position kind

/-- A line of the source is the words of the instruction at its offset. -/
theorem reads_assemblyLine {offset : Nat}
    (hoffset : (∃ size, instructionSize? code offset = some size) ∨ code.size ≤ offset) :
    Reads (assemblyLine code offset).toList
      (statementWords (offsetLabel offset) (instructionAt? code offset)) := by
  have hline : (assemblyLine code offset).toList = (offsetLabel offset).toList ++
      ':' :: (String.join (assemblyPieces code offset)).toList := by
    simp [assemblyLine]
  rw [hline]
  rcases hoffset with ⟨size, hsize⟩ | hle
  · obtain ⟨opcode, hopcode, hfits, -, hinstruction⟩ := exists_instructionAt? hsize
    obtain ⟨first, tail, hname, hfirst, htail, -⟩ := opcode.exists_name
    rw [hinstruction, assemblyPieces_of_ofByte? hopcode hfits, statementWords, String.join_cons,
      String.toList_append, hname, List.cons_append]
    refine reads_offsetLabel (by simp [EndsWord]) (.mark (.inl rfl) ?_) offset
    exact .name hfirst htail (endsWord_assemblyOperands _ (.inl rfl) _)
      (reads_assemblyOperands _ _)
  · have hnone : instructionAt? code offset = none := by
      simp [instructionAt?, instructionSize?, hle]
    rw [hnone, assemblyPieces_of_le hle, String.join_nil]
    exact reads_offsetLabel (by simp [EndsWord]) (.mark (.inl rfl) .done) offset

end Words

/-! ### The statements of the source -/

/-- A statement has what the line of an offset says. -/
def Restates (code : Array UInt8) (statement : Statement) (offset : Nat) : Prop :=
  statement.label = some (offsetLabel offset) ∧
    statement.instruction.map (fun found => (found.opcode, found.operands.map Operand.value)) =
      instructionAt? code offset

/-- The text consists of the lines of the offsets. -/
theorem toList_assemblyText (code : Array UInt8) :
    (assemblyText code).toList =
      linesText ((assemblyOffsets code).map fun offset => (assemblyLine code offset).toList) := by
  rw [assemblyText, String.toList_join, linesText, List.flatMap_map, List.flatMap_map]
  simp [assemblyOffsets]

/-- The source of a program is read as the instructions of the program, each with its label. -/
theorem exists_parse_assemblyText {code : Array UInt8} (hcovered : (Cluster.ofCode code).Covered) :
    ∃ statements, List.Forall₂ (Restates code) statements (assemblyOffsets code) ∧
      Source.parse (.ofBytes (utf8Bytes (assemblyText code)) none) = ⟨statements, []⟩ := by
  have hscans : Scans code 0 (Cluster.ofCode code).offsets.toList code.size :=
    Cluster.covered_iff.mp hcovered
  have hreads : ∀ offset ∈ assemblyOffsets code, Reads (assemblyLine code offset).toList
      (statementWords (offsetLabel offset) (instructionAt? code offset)) := by
    intro offset hmem
    rcases List.mem_append.mp hmem with hinside | hend
    · obtain ⟨size, hsize, -⟩ := hscans.size_of_mem hinside
      exact reads_assemblyLine (.inl ⟨size, hsize⟩)
    · exact reads_assemblyLine (.inr (Nat.le_of_eq (List.mem_singleton.mp hend).symm))
  have hmeans : ∀ offset ∈ assemblyOffsets code, ∀ tokens,
      Spells tokens (statementWords (offsetLabel offset) (instructionAt? code offset)) →
        ∃ statement, statementOf tokens = .ok (some statement) ∧
          Restates code statement offset := by
    intro offset _ tokens hspells
    refine exists_statementOf (registerIndex?_offsetLabel offset) ?_ hspells
    intro opcode values hinstruction
    rw [values_of_instructionAt? hinstruction]
    exact ⟨(map_kind_operandValues code _ _).symm, plain_operandValues⟩
  obtain ⟨statements, hrestates, hparse⟩ := exists_parse hreads hmeans
  refine ⟨statements, hrestates, ?_⟩
  have hascii : ∀ c ∈ (assemblyText code).toList, c.toNat < 128 := by
    rw [toList_assemblyText]
    exact fun c hc => (ascii_linesText hreads c hc).2
  rw [Source.ofBytes, decodeUtf8_utf8Bytes hascii, textSymbols, toList_assemblyText, hparse]

/-! ### The program of the source -/

/-- Different offsets have different labels. -/
theorem offsetLabel_injective : Function.Injective offsetLabel := by
  intro offset other hsame
  have hlists := congrArg String.toList hsame
  rw [toList_offsetLabel, toList_offsetLabel] at hlists
  have hdigits := (List.cons.inj hlists).2
  calc offset
      _ = Nat.ofDigitChars 10 (Nat.toDigits 10 offset) 0 := Nat.ofDigitChars_ten_toDigits.symm
      _ = Nat.ofDigitChars 10 (Nat.toDigits 10 other) 0 := by rw [hdigits]
      _ = other := Nat.ofDigitChars_ten_toDigits

section Program

variable {code : Array UInt8}

theorem drop_toList_of_lt {position : Nat} (hlt : position < code.size) :
    code.toList.drop position = code.getD position 0 :: code.toList.drop (position + 1) := by
  rw [List.drop_eq_getElem_cons (by simpa using hlt)]
  simp [hlt]

/-- An operand is encoded as the bytes that it was read from, if its label stands for its target. -/
theorem bytes_operandValueAt {address : String → Nat} {position : Nat} {kind : OperandKind}
    (hfits : position + kind.size ≤ code.size)
    (haddress : kind = .label →
      address (offsetLabel (targetAt code position)) = targetAt code position) :
    (operandValueAt code position kind).bytes address =
      (code.toList.drop position).take kind.size := by
  cases kind with
  | register | immediate =>
      rw [drop_toList_of_lt hfits]
      rfl
  | label =>
      have hfirst := drop_toList_of_lt (Nat.lt_of_succ_lt hfits)
      have hsecond := drop_toList_of_lt hfits
      rw [hfirst, hsecond, operandValueAt, OperandValue.bytes, haddress rfl, targetAt,
        addressBytes_addressOfBytes]
      rfl

/-- Operands are encoded as the bytes they were read from. -/
theorem flatMap_bytes_operandValues {address : String → Nat} {position : Nat}
    {kinds : List OperandKind} (hfits : position + OperandKind.totalSize kinds ≤ code.size)
    (haddress : ∀ operand ∈ operandPositions position kinds, operand.1 = .label →
      address (offsetLabel (targetAt code operand.2)) = targetAt code operand.2) :
    (operandValues code position kinds).flatMap (OperandValue.bytes address) =
      (code.toList.drop position).take (OperandKind.totalSize kinds) := by
  induction kinds generalizing position with
  | nil => simp [operandValues, OperandKind.totalSize]
  | cons kind kinds ih =>
      obtain ⟨hfirst, hrest⟩ := List.forall_mem_cons.mp haddress
      rw [OperandKind.totalSize] at hfits ⊢
      have hhere : position + kind.size ≤ code.size := by omega
      rw [operandValues, List.flatMap_cons, bytes_operandValueAt hhere hfirst,
        ih (by omega) hrest, List.take_add, List.drop_drop]

/-- A label among the operands is that of a branch target in the code. -/
theorem exists_position_of_mem {position : Nat} {kinds : List OperandKind} {name : String}
    (hmem : .label name ∈ operandValues code position kinds) :
    ∃ found, (.label, found) ∈ operandPositions position kinds ∧
      name = offsetLabel (targetAt code found) := by
  induction kinds generalizing position with
  | nil => cases hmem
  | cons kind kinds ih =>
      rcases List.mem_cons.mp hmem with hhere | hlater
      · cases kind with
        | register | immediate => cases hhere
        | label => exact ⟨position, List.mem_cons_self, OperandValue.label.inj hhere⟩
      · obtain ⟨found, hfound, hname⟩ := ih hlater
        exact ⟨found, List.mem_cons_of_mem _ hfound, hname⟩

/-- An instruction is the one at an offset. -/
structure StandsAt (code : Array UInt8) (instruction : Instruction) (offset : Nat) : Prop where
  opcode : Opcode.ofByte? (code.getD offset 0) = some instruction.opcode
  fits : offset + instruction.opcode.size ≤ code.size
  operands : instruction.operands.map Operand.value =
    operandValues code (offset + 1) instruction.opcode.operands

/-- An instruction is encoded as the bytes it was read from. -/
theorem StandsAt.bytes {address : String → Nat} {offset : Nat} {instruction : Instruction}
    (hstands : StandsAt code instruction offset)
    (haddress : BranchesTo code (fun target => address (offsetLabel target) = target) offset) :
    instruction.bytes address = (code.toList.drop offset).take instruction.opcode.size := by
  have hvalues : (instruction.operands.flatMap fun operand => operand.value.bytes address) =
      (instruction.operands.map Operand.value).flatMap (OperandValue.bytes address) := by
    rw [List.flatMap_map]
  have hfits := hstands.fits
  unfold Opcode.size at hfits ⊢
  have hbyte := drop_toList_of_lt (show offset < code.size by omega)
  rw [Instruction.bytes, hvalues, hstands.operands, toByte_of_ofByte? hstands.opcode, hbyte,
    Nat.add_comm 1, List.take_succ_cons,
    flatMap_bytes_operandValues (by omega) (haddress _ hstands.opcode)]

/-- The labels that an instruction uses are those of its branch targets. -/
theorem StandsAt.usesLabels {defined : String → Prop} {offset : Nat} {instruction : Instruction}
    (hstands : StandsAt code instruction offset)
    (hdefined : BranchesTo code (fun target => defined (offsetLabel target)) offset) :
    instruction.UsesLabels defined := by
  intro operand hoperand name hname
  have hmem : .label name ∈ operandValues code (offset + 1) instruction.opcode.operands := by
    rw [← hstands.operands, ← hname]
    exact List.mem_map_of_mem hoperand
  obtain ⟨position, hposition, htarget⟩ := exists_position_of_mem hmem
  rw [htarget]
  exact hdefined instruction.opcode hstands.opcode (.label, position) hposition rfl

/-- Where the table has an instruction, the statement has it too. -/
theorem Restates.exists_instruction {statement : Statement} {offset size : Nat}
    (hrestates : Restates code statement offset)
    (hsize : instructionSize? code offset = some size) :
    ∃ instruction, statement.instruction = some instruction ∧
      StandsAt code instruction offset ∧ instruction.opcode.size = size := by
  obtain ⟨opcode, hopcode, hfits, hsame, hinstruction⟩ := exists_instructionAt? hsize
  obtain ⟨instruction, hsome, hparts⟩ := Option.map_eq_some_iff.mp (hrestates.2.trans hinstruction)
  obtain ⟨rfl, hoperands⟩ := Prod.mk.inj hparts
  exact ⟨instruction, hsome, ⟨hopcode, hfits, hoperands⟩, hsame⟩

theorem Restates.instruction_eq_none {statement : Statement} {offset : Nat}
    (hrestates : Restates code statement offset) (hnone : instructionSize? code offset = none) :
    statement.instruction = none := by
  have hnothing := hrestates.2
  rw [instructionAt?, hnone, Option.bind_none, Option.map_eq_none_iff] at hnothing
  exact hnothing

section Scan

variable {pc stop : Nat} {offsets : List Nat} {statements : List Statement}

/-- The statements define the labels of their offsets, in order. -/
theorem labelsOf_of_restates (hrestates : List.Forall₂ (Restates code) statements offsets) :
    labelsOf statements = offsets.map offsetLabel := by
  induction hrestates with
  | nil => rfl
  | cons hfirst hrest ih => simpa [labelsOf, hfirst.1] using ih

/-- The instructions of the source are those of the scan. -/
theorem standsAt_of_scans (hscans : Scans code pc offsets stop)
    (hrestates : List.Forall₂ (Restates code) statements (offsets ++ [stop])) :
    List.Forall₂ (StandsAt code) (instructionsOf statements) offsets := by
  induction hscans generalizing statements with
  | stop hnone =>
      obtain ⟨statement, rest, hlast, hnil, rfl⟩ := List.forall₂_cons_right_iff.mp hrestates
      obtain rfl := List.forall₂_nil_right_iff.mp hnil
      have hempty := hlast.instruction_eq_none hnone
      simp [instructionsOf, hempty]
  | next hsize hrest ih =>
      obtain ⟨statement, rest, hfirst, hothers, rfl⟩ := List.forall₂_cons_right_iff.mp hrestates
      obtain ⟨instruction, hinstruction, hstands, -⟩ := hfirst.exists_instruction hsize
      have hsplit : instructionsOf (statement :: rest) = instruction :: instructionsOf rest := by
        simp [instructionsOf, hinstruction]
      rw [hsplit]
      exact .cons hstands (ih hothers)

/-- All labels that are used are defined, if all branch targets are in the table. -/
theorem usesLabels_of_standsAt {defined : String → Prop} {instructions : List Instruction}
    (hstands : List.Forall₂ (StandsAt code) instructions offsets)
    (hdefined : ∀ offset ∈ offsets,
      BranchesTo code (fun target => defined (offsetLabel target)) offset) :
    ∀ instruction ∈ instructions, instruction.UsesLabels defined := by
  induction hstands with
  | nil => exact fun instruction hmem => by cases hmem
  | cons hfirst hrest ih =>
      obtain ⟨hhere, hthere⟩ := List.forall_mem_cons.mp hdefined
      exact List.forall_mem_cons.mpr ⟨hfirst.usesLabels hhere, ih hthere⟩

/-- A line has the label of the offset at which its instruction is put. -/
theorem label_of_scans {before after : List Statement} {statement : Statement}
    (hscans : Scans code pc offsets stop)
    (hrestates : List.Forall₂ (Restates code) (before ++ statement :: after) (offsets ++ [stop])) :
    statement.label = some (offsetLabel (pc + codeSize (instructionsOf before))) := by
  -- along the scan: each line before adds the size of its instruction to the start
  induction hscans generalizing before with
  | stop hnone =>
      cases before with
      | nil => exact (List.forall₂_cons.mp hrestates).1.1
      | cons first before =>
          have hlength := hrestates.length_eq
          simp at hlength
  | @next pc size stop offsets hsize hrest ih =>
      cases before with
      | nil => exact (List.forall₂_cons.mp hrestates).1.1
      | cons first before =>
          obtain ⟨hfirst, hothers⟩ := List.forall₂_cons.mp hrestates
          obtain ⟨instruction, hinstruction, -, rfl⟩ := hfirst.exists_instruction hsize
          have hsize : codeSize (instructionsOf (first :: before)) =
              instruction.opcode.size + codeSize (instructionsOf before) := by
            simp [instructionsOf, codeSize, hinstruction]
          rw [hsize, ← Nat.add_assoc]
          exact ih hothers

/-- The label of an offset has that offset as its address. -/
theorem addressIn_offsetLabel (hscans : Scans code 0 offsets stop)
    (hrestates : List.Forall₂ (Restates code) statements (offsets ++ [stop]))
    (hnodup : (labelsOf statements).Nodup) {offset : Nat} (hmem : offset ∈ offsets ++ [stop]) :
    addressIn statements (offsetLabel offset) = offset := by
  have hlabel : offsetLabel offset ∈ labelsOf statements := by
    rw [labelsOf_of_restates hrestates]
    exact List.mem_map_of_mem hmem
  obtain ⟨statement, hstatement, hname⟩ := List.mem_filterMap.mp hlabel
  obtain ⟨before, after, rfl⟩ := List.append_of_mem hstatement
  have hsame := label_of_scans hscans hrestates
  rw [hname, Option.some.injEq, Nat.zero_add] at hsame
  rw [addressIn_of_split hnodup hname]
  exact (offsetLabel_injective hsame).symm

/-- The instructions of a scan are encoded as the bytes that it goes over. -/
theorem encode_of_scans {address : String → Nat} {instructions : List Instruction}
    (hscans : Scans code pc offsets stop) (hstop : stop = code.size)
    (hstands : List.Forall₂ (StandsAt code) instructions offsets)
    (haddress : ∀ offset ∈ offsets,
      BranchesTo code (fun target => address (offsetLabel target) = target) offset) :
    encode address instructions = code.toList.drop pc := by
  induction hscans generalizing instructions with
  | stop hnone =>
      obtain rfl := List.forall₂_nil_right_iff.mp hstands
      simp [encode, hstop]
  | @next pc size stop offsets hsize hrest ih =>
      obtain ⟨instruction, rest, hfirst, hothers, rfl⟩ := List.forall₂_cons_right_iff.mp hstands
      obtain ⟨hhere, hthere⟩ := List.forall_mem_cons.mp haddress
      have hsame : instruction.opcode.size = size := by
        obtain ⟨opcode, hopcode, rfl, -⟩ := exists_opcode_of_instructionSize? hsize
        rw [Option.some.inj (hfirst.opcode.symm.trans hopcode)]
      calc encode address (instruction :: rest)
          _ = instruction.bytes address ++ encode address rest := rfl
          _ = (code.toList.drop pc).take size ++ code.toList.drop (pc + size) := by
            rw [hfirst.bytes hhere, ih hstop hothers hthere, hsame]
          _ = code.toList.drop pc := by rw [← List.drop_drop, List.take_append_drop]

end Scan

/-! ### Assembling the source -/

/-- Every offset is printed once. -/
theorem nodup_assemblyOffsets (hcovered : (Cluster.ofCode code).Covered) :
    (assemblyOffsets code).Nodup := by
  have hscans : Scans code 0 (Cluster.ofCode code).offsets.toList code.size :=
    Cluster.covered_iff.mp hcovered
  refine List.nodup_append.mpr ⟨hscans.increasing.imp Nat.ne_of_lt, List.nodup_singleton _, ?_⟩
  rintro offset hmem stop hstop rfl
  obtain rfl := List.mem_singleton.mp hstop
  obtain ⟨size, hsize, -, hle⟩ := hscans.size_of_mem hmem
  have hpos := (instructionSize?_bounds hsize).1
  omega

/-- The offsets that are printed are the ones that a branch may go to. -/
theorem mem_assemblyOffsets_iff {target : Nat} :
    target ∈ assemblyOffsets code ↔ (Cluster.ofCode code).isTarget target = true := by
  rw [Cluster.isTarget_iff, assemblyOffsets, List.mem_append, List.mem_singleton, Or.comm,
    Array.mem_toList_iff]
  rfl

end Program

/-- A source is assembled to a program if its statements are encoded as that program and the
assembler has nothing to object to. -/
theorem Assembler.result_of_encode {registers : Nat} {assembler : Assembler}
    (hready : assembler.Ready registers) (name : String) {source : Source}
    {statements : List Statement} {code : Array UInt8}
    (hparse : source.parse = ⟨statements, []⟩) (hfits : code.size ≤ maxClusterSize)
    (hnodup : (labelsOf statements).Nodup)
    (hlabels : ∀ instruction ∈ instructionsOf statements,
      instruction.UsesLabels fun name => name ∈ labelsOf statements)
    (hregisters : ∀ instruction ∈ instructionsOf statements, instruction.UsesRegisters registers)
    (hcode : encode (addressIn statements) (instructionsOf statements) = code.toList) :
    (assembler.assemble name source).result = .ok (Cluster.ofCode code) := by
  obtain ⟨count, verbose, builder, labels⟩ := assembler
  obtain ⟨rfl, hbuilder, rfl⟩ : count = registers ∧ builder.code = #[] ∧ labels = .empty :=
    ⟨hready.registers, hready.code, hready.labels⟩
  have hwell : ∀ instruction ∈ instructionsOf statements, instruction.WellFormed := by
    have hparsed := wellFormed_of_parse source
    rwa [hparse] at hparsed
  have hsize : codeSize (instructionsOf statements) ≤ maxClusterSize := by
    rw [← length_encode hwell (addressIn statements), hcode, Array.length_toList]
    exact hfits
  have hnotices := (notices_emitStatements_iff count hbuilder hwell).mpr
    ⟨hnodup, hlabels, hregisters, hsize⟩
  have hbytes := (isProgram_emitStatements count hbuilder hwell hnotices).bytes
  have hemitted := Array.toList_inj.mp (hbytes.trans hcode)
  simp [assemble, hparse, hnotices, Builder.freeze, hemitted]

/-- The source of a program is assembled to that program: every program that branches can address,
whose bytes all belong to instructions and whose branches all go to instructions or to the end. -/
theorem assemble_assemblyText {assembler : Assembler} (hassembler : assembler.Reachable 256)
    (name : String) {code : Array UInt8} (hfits : code.size ≤ maxClusterSize)
    (hcovered : (Cluster.ofCode code).Covered)
    (htargets : ∀ offset ∈ (Cluster.ofCode code).offsets,
      BranchesTo code (fun target => (Cluster.ofCode code).isTarget target = true) offset) :
    (assembler.assemble name (.ofBytes (utf8Bytes (assemblyText code)) none)).result =
      .ok (Cluster.ofCode code) := by
  have hscans : Scans code 0 (Cluster.ofCode code).offsets.toList code.size :=
    Cluster.covered_iff.mp hcovered
  obtain ⟨statements, hrestates, hparse⟩ := exists_parse_assemblyText hcovered
  have hnodup : (labelsOf statements).Nodup := by
    rw [labelsOf_of_restates hrestates]
    exact (nodup_assemblyOffsets hcovered).map offsetLabel_injective
  have hstands := standsAt_of_scans hscans hrestates
  have hgood : ∀ offset ∈ (Cluster.ofCode code).offsets.toList,
      BranchesTo code (· ∈ assemblyOffsets code) offset := by
    intro offset hmem
    refine (htargets offset (Array.mem_toList_iff.mp hmem)).imp ?_
    exact fun target => mem_assemblyOffsets_iff.mpr
  refine Assembler.result_of_encode hassembler.ready name hparse hfits hnodup ?_ ?_ ?_
  · refine usesLabels_of_standsAt hstands fun offset hmem => (hgood offset hmem).imp ?_
    intro target htarget
    rw [labelsOf_of_restates hrestates]
    exact List.mem_map_of_mem htarget
  · intro instruction _ operand _ index _
    exact index.toNat_lt
  · refine encode_of_scans hscans rfl hstands fun offset hmem => (hgood offset hmem).imp ?_
    intro target htarget
    exact addressIn_offsetLabel hscans hrestates hnodup htarget

/-- A program with a branch back and one to its end. -/
def branchingCode : Array UInt8 := #[3, 255, 9, 35, 0, 0, 34, 9, 0]

theorem offsets_branchingCode : (Cluster.ofCode branchingCode).offsets.toList = [0, 3, 6] ∧
    (Cluster.ofCode branchingCode).Covered := by
  have hscans : Scans branchingCode 0 [0, 3, 6] branchingCode.size :=
    .next rfl (.next rfl (.next rfl (.stop rfl)))
  obtain ⟨stop, htable⟩ := (Cluster.ofCode branchingCode).exists_scans
  obtain ⟨hoffsets, rfl⟩ := htable.unique hscans
  exact ⟨hoffsets, Cluster.covered_iff.mpr htable⟩

theorem assemblyText_branchingCode :
    assemblyText branchingCode = "L0:mov r255, 9\nL3:je L0\nL6:jmp L9\nL9:\n" := by
  rw [assemblyText, assemblyOffsets, offsets_branchingCode.1]
  decide +kernel

/-- Two branches, one of them to the end of the code, and a register beyond any that a machine
usually has. -/
theorem assemble_assemblyText_of_branches :
    ((⟨256, false, .empty, .empty⟩ : Assembler).assemble ""
      (.ofBytes (utf8Bytes "L0:mov r255, 9\nL3:je L0\nL6:jmp L9\nL9:\n") none)).result =
        .ok (Cluster.ofCode branchingCode) := by
  obtain ⟨hoffsets, hcovered⟩ := offsets_branchingCode
  have hlines : assemblyOffsets branchingCode = [0, 3, 6, 9] := by
    rw [assemblyOffsets, hoffsets]
    rfl
  have htargets : ∀ offset ∈ [0, 3, 6], BranchesTo branchingCode (· ∈ [0, 3, 6, 9]) offset := by
    simp only [List.forall_mem_cons]
    refine ⟨?_, ?_, ?_, fun offset hmem => by cases hmem⟩
    all_goals
      rintro opcode ⟨rfl⟩
      decide
  rw [← assemblyText_branchingCode]
  refine assemble_assemblyText (.new rfl) "" (by decide) hcovered ?_
  intro offset hmem
  rw [← Array.mem_toList_iff, hoffsets] at hmem
  refine (htargets offset hmem).imp fun target htarget => mem_assemblyOffsets_iff.mp ?_
  rw [hlines]
  exact htarget

end Octet
