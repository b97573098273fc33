import Mathlib.Algebra.GroupWithZero.Nat
import Mathlib.Tactic.Common
import Octet.Proofs.Cluster.Table
import Octet.Proofs.Machine.Instruction
import Octet.Proofs.Source.Recording

/-! # The layout of a program

Where the instructions of a source stand in its program, which addresses its labels
have, and which bytes it consists of once every label has an address. Nothing here
knows how the assembler comes to these bytes.
-/

namespace Octet

/-! ### Instructions of a source -/

/-- The operands are of the kinds that the opcode asks for. -/
def Instruction.WellFormed (instruction : Instruction) : Prop :=
  instruction.opcode.operands = instruction.operands.map fun operand => operand.value.kind

/-- The instructions of some statements, in order. -/
def instructionsOf (statements : List Statement) : List Instruction :=
  statements.filterMap Statement.instruction

theorem instructionsOf_append (statements others : List Statement) :
    instructionsOf (statements ++ others) = instructionsOf statements ++ instructionsOf others :=
  List.filterMap_append

/-- An instruction has the opcode of the name that is written, in the form that its operands take. -/
theorem opcode_of_instructionOf {name : Token} {rest : List Token} {instruction : Instruction}
    (hinstruction : instructionOf name rest = .ok instruction) :
    instruction.opcode ∈ opcodesNamed (String.ofList (name.chars.map asciiLower)) ∧
      instruction.WellFormed := by
  simp only [instructionOf] at hinstruction
  split at hinstruction
  next => cases hinstruction
  next =>
    split at hinstruction
    next => cases hinstruction
    next =>
      split at hinstruction
      next => cases hinstruction
      next operands hoperands =>
        split at hinstruction
        next opcode hopcode =>
          obtain rfl := Except.ok.inj hinstruction
          refine ⟨List.mem_of_find?_eq_some hopcode, ?_⟩
          simpa [Instruction.WellFormed] using List.find?_some hopcode
        next => cases hinstruction

/-- An instruction that is read has operands of the kinds that its opcode takes. -/
theorem wellFormed_of_labelledStatement {place : Place} {label : Option String}
    {tokens : List Token} {statement : Statement} {instruction : Instruction}
    (hstatement : labelledStatement place label tokens = .ok statement)
    (hinstruction : statement.instruction = some instruction) : instruction.WellFormed := by
  cases tokens with
  | nil =>
      obtain rfl := Except.ok.inj hstatement
      cases hinstruction
  | cons name rest =>
      simp only [labelledStatement] at hstatement
      split at hstatement
      next => cases hstatement
      next found hfound =>
        obtain rfl := Except.ok.inj hstatement
        obtain rfl := Option.some.inj hinstruction
        exact (opcode_of_instructionOf hfound).2

theorem exists_labelledStatement {tokens : List Token} {statement : Statement}
    (hstatement : statementOf tokens = .ok (some statement)) :
    ∃ place label rest, labelledStatement place label rest = .ok statement := by
  have hmap {result : Except (List Notice) Statement}
      (hresult : result.map some = .ok (some statement)) : result = .ok statement := by
    obtain ⟨_, hfound, ⟨rfl⟩⟩ := map_eq_ok_iff.mp hresult
    exact hfound
  match tokens, hstatement with
  | [only], hstatement => exact ⟨_, _, _, hmap hstatement⟩
  | first :: second :: rest, hstatement =>
      simp only [statementOf] at hstatement
      split at hstatement
      next =>
        split at hstatement
        next => cases hstatement
        next => exact ⟨_, _, _, hmap hstatement⟩
      next => exact ⟨_, _, _, hmap hstatement⟩

/-- The instructions that a source is read as have operands of the right kinds. -/
theorem wellFormed_of_parse (source : Source) :
    ∀ instruction ∈ instructionsOf source.parse.statements, instruction.WellFormed := by
  intro instruction hmem
  obtain ⟨statement, hstatement, hinstruction⟩ := List.mem_filterMap.mp hmem
  obtain ⟨line, -, hline⟩ := Source.exists_line_of_mem_statements hstatement
  obtain ⟨place, label, rest, hlabelled⟩ := exists_labelledStatement hline
  exact wellFormed_of_labelledStatement hlabelled hinstruction

/-! ### Offsets -/

/-- The number of program bytes of some instructions. -/
def codeSize (instructions : List Instruction) : Nat :=
  (instructions.map fun instruction => instruction.opcode.size).sum

/-- The program offset of an instruction that is given by its index. -/
def offsetOf (instructions : List Instruction) (index : Nat) : Nat :=
  codeSize (instructions.take index)

theorem codeSize_append (instructions others : List Instruction) :
    codeSize (instructions ++ others) = codeSize instructions + codeSize others := by
  simp [codeSize]

/-- Instructions behind others do not move them. -/
theorem offsetOf_append {instructions : List Instruction} {index : Nat}
    (hle : index ≤ instructions.length) (others : List Instruction) :
    offsetOf (instructions ++ others) index = offsetOf instructions index := by
  rw [offsetOf, List.take_append_of_le_length hle, offsetOf]

theorem offsetOf_length (instructions : List Instruction) :
    offsetOf instructions instructions.length = codeSize instructions := by
  rw [offsetOf, List.take_length]

theorem offsetOf_le (instructions : List Instruction) (index : Nat) :
    offsetOf instructions index ≤ codeSize instructions := by
  have hsplit := codeSize_append (instructions.take index) (instructions.drop index)
  rw [List.take_append_drop] at hsplit
  unfold offsetOf
  omega

/-- The next instruction is as far away as the size of the instruction says. -/
theorem offsetOf_succ {instructions : List Instruction} {index : Nat} {instruction : Instruction}
    (hindex : instructions[index]? = some instruction) :
    offsetOf instructions (index + 1) = offsetOf instructions index + instruction.opcode.size := by
  rw [offsetOf, List.take_add_one, hindex, codeSize_append]
  simp [offsetOf, codeSize]

/-! ### Labels -/

/-- The number of instructions before the statement that defines a label. -/
def labelPoint? (statements : List Statement) (name : String) : Option Nat :=
  (statements.findIdx? fun statement => statement.label == some name).map fun index =>
    (instructionsOf (statements.take index)).length

/-- The program offset that a label stands for. -/
def labelAddress? (statements : List Statement) (name : String) : Option Nat :=
  (labelPoint? statements name).map (offsetOf (instructionsOf statements))

/-- A label does not point beyond the end. -/
theorem labelPoint?_le {statements : List Statement} {name : String} {point : Nat}
    (hpoint : labelPoint? statements name = some point) :
    point ≤ (instructionsOf statements).length := by
  obtain ⟨index, -, rfl⟩ := Option.map_eq_some_iff.mp hpoint
  conv_rhs => rw [← List.take_append_drop index statements, instructionsOf_append]
  simp

/-- A further statement defines a label only if no statement before it does. -/
theorem labelPoint?_append (statements : List Statement) (statement : Statement) (name : String) :
    labelPoint? (statements ++ [statement]) name =
      (labelPoint? statements name).or
        (if statement.label = some name then some (instructionsOf statements).length
          else none) := by
  simp only [labelPoint?, List.findIdx?_append]
  cases hindex : statements.findIdx? fun statement => statement.label == some name with
  | some index =>
      have hle : index ≤ statements.length :=
        Nat.le_of_lt (List.findIdx?_eq_some_iff_getElem.mp hindex).1
      simp [List.take_append_of_le_length hle]
  | none =>
      by_cases hlabel : statement.label = some name <;> simp [List.findIdx?_cons, hlabel]

/-- A label that was defined before keeps its address, and a new one stands for the end of the code
so far. -/
theorem labelAddress?_append (statements : List Statement) (statement : Statement)
    (name : String) :
    labelAddress? (statements ++ [statement]) name =
      (labelAddress? statements name).or
        (if statement.label = some name then some (codeSize (instructionsOf statements))
          else none) := by
  simp only [labelAddress?, labelPoint?_append, instructionsOf_append]
  cases hpoint : labelPoint? statements name with
  | some point => simp [offsetOf_append (labelPoint?_le hpoint)]
  | none =>
      by_cases hlabel : statement.label = some name
      · simp [hlabel, offsetOf_append (Nat.le_refl _), offsetOf_length]
      · simp [hlabel]

/-! ### Bytes -/

/-- The bytes of an operand, each label having the given address. -/
def OperandValue.bytes (address : String → Nat) : OperandValue → List UInt8
  | register index => [index]
  | immediate value => [value]
  | label name => [(addressBytes (address name)).1, (addressBytes (address name)).2]

/-- The bytes of an instruction. -/
def Instruction.bytes (address : String → Nat) (instruction : Instruction) : List UInt8 :=
  instruction.opcode.toByte ::
    instruction.operands.flatMap fun operand => operand.value.bytes address

/-- The bytes of a program. -/
def encode (address : String → Nat) (instructions : List Instruction) : List UInt8 :=
  instructions.flatMap (Instruction.bytes address)

/-- The code of an opcode names that opcode. -/
theorem ofByte?_toByte (opcode : Opcode) : Opcode.ofByte? opcode.toByte = some opcode := by
  cases opcode with
  | nop | halt | pop | peek | drop | input => decide
  | binary op mode => cases op <;> cases mode <;> decide
  | unary op => cases op <;> decide
  | push mode | compare mode => cases mode <;> decide
  | branch condition => cases condition <;> decide
  | write channel style mode => cases channel <;> cases style <;> cases mode <;> decide

/-- No two opcodes share a code. -/
theorem toByte_of_ofByte? {byte : UInt8} {opcode : Opcode}
    (hopcode : Opcode.ofByte? byte = some opcode) : opcode.toByte = byte := by
  have hnodup : Opcode.all.Nodup := by decide +kernel
  obtain ⟨hlt, rfl⟩ := Array.getElem?_eq_some_iff.mp hopcode
  have hindex : Opcode.all.idxOf Opcode.table[byte.toNat] = byte.toNat :=
    hnodup.idxOf_getElem byte.toNat hlt
  rw [Opcode.toByte, hindex]
  exact UInt8.ofNat_toNat

/-- An address that a program can have is read back from its two bytes. -/
theorem addressOfBytes_addressBytes {address : Nat} (hle : address ≤ maxClusterSize) :
    addressOfBytes (addressBytes address).1 (addressBytes address).2 = address := by
  have hlow : ((address : Int) % 256).toNat = address % 256 := by omega
  have hhigh : ((address : Int) / 256 % 256).toNat = address / 256 % 256 := by omega
  have hbound : address ≤ 65535 := hle
  simp only [addressBytes, addressOfBytes, hlow, hhigh, Nat.toUInt8, UInt8.toNat_ofNat']
  omega

/-- The bytes of an address are those that it was read from. -/
theorem addressBytes_addressOfBytes (low high : UInt8) :
    addressBytes (addressOfBytes low high) = (low, high) := by
  have hlow := low.toNat_lt
  have hhigh := high.toNat_lt
  have hfirst : ((addressOfBytes low high : Int) % 256).toNat = low.toNat := by
    unfold addressOfBytes
    omega
  have hsecond : ((addressOfBytes low high : Int) / 256 % 256).toNat = high.toNat := by
    unfold addressOfBytes
    omega
  rw [addressBytes, hfirst, hsecond]
  exact Prod.ext UInt8.ofNat_toNat UInt8.ofNat_toNat

theorem length_bytes (address : String → Nat) (value : OperandValue) :
    (value.bytes address).length = value.kind.size := by
  cases value <;> rfl

theorem length_flatMap_bytes (address : String → Nat) (operands : List Operand) :
    (operands.flatMap fun operand => operand.value.bytes address).length =
      OperandKind.totalSize (operands.map fun operand => operand.value.kind) := by
  induction operands with
  | nil => rfl
  | cons operand operands ih =>
      rw [List.flatMap_cons, List.length_append, ih, length_bytes]
      rfl

/-- An instruction is as long as its opcode says. -/
theorem Instruction.WellFormed.length_bytes {instruction : Instruction}
    (hwell : instruction.WellFormed) (address : String → Nat) :
    (instruction.bytes address).length = instruction.opcode.size := by
  rw [Instruction.bytes, List.length_cons, length_flatMap_bytes, ← hwell, Opcode.size,
    Nat.add_comm]

theorem encode_append (address : String → Nat) (instructions others : List Instruction) :
    encode address (instructions ++ others) =
      encode address instructions ++ encode address others :=
  List.flatMap_append

/-- The code is as long as its instructions together. -/
theorem length_encode {instructions : List Instruction}
    (hwell : ∀ instruction ∈ instructions, instruction.WellFormed) (address : String → Nat) :
    (encode address instructions).length = codeSize instructions := by
  induction instructions with
  | nil => rfl
  | cons instruction instructions ih =>
      obtain ⟨hfirst, hrest⟩ := List.forall_mem_cons.mp hwell
      have hlength := ih hrest
      simp only [encode, codeSize] at hlength
      simp [encode, codeSize, hlength, hfirst.length_bytes]

/-- An instruction stands at its offset. -/
theorem exists_encode_split {instructions : List Instruction}
    (hwell : ∀ instruction ∈ instructions, instruction.WellFormed) (address : String → Nat)
    {index : Nat} {instruction : Instruction} (hindex : instructions[index]? = some instruction) :
    ∃ before after,
      encode address instructions = before ++ (instruction.bytes address ++ after) ∧
        before.length = offsetOf instructions index := by
  obtain ⟨hlt, rfl⟩ := List.getElem?_eq_some_iff.mp hindex
  refine ⟨encode address (instructions.take index), encode address (instructions.drop (index + 1)),
    ?_, length_encode (fun other hother => hwell other (List.mem_of_mem_take hother)) address⟩
  conv_lhs => rw [← List.take_append_drop index instructions, List.drop_eq_getElem_cons hlt]
  rw [encode_append]
  rfl

/-! ### The table of a program -/

/-- The offsets of instructions that follow one another from `start` on. -/
def offsetsOf (start : Nat) : List Instruction → List Nat
  | [] => []
  | instruction :: rest => start :: offsetsOf (start + instruction.opcode.size) rest

theorem length_offsetsOf (start : Nat) (instructions : List Instruction) :
    (offsetsOf start instructions).length = instructions.length := by
  induction instructions generalizing start with
  | nil => rfl
  | cons instruction rest ih => simp [offsetsOf, ih]

/-- The offsets are those of the instructions, in order. -/
theorem getElem?_offsetsOf {start index : Nat} {instructions : List Instruction}
    (hlt : index < instructions.length) :
    (offsetsOf start instructions)[index]? = some (start + offsetOf instructions index) := by
  induction instructions generalizing start index with
  | nil => cases hlt
  | cons instruction rest ih =>
      cases index with
      | zero => simp [offsetsOf, offsetOf, codeSize]
      | succ index =>
          rw [offsetsOf, List.getElem?_cons_succ, ih (by simpa using hlt)]
          simp only [offsetOf, codeSize, List.take_succ_cons, List.map_cons, List.sum_cons,
            Nat.add_assoc]

/-- Where an instruction is encoded, the code has one of its size. -/
theorem instructionSize?_of_split {code : Array UInt8} {before after : List UInt8}
    {address : String → Nat} {instruction : Instruction} (hwell : instruction.WellFormed)
    (hcode : code.toList = before ++ (instruction.bytes address ++ after)) :
    instructionSize? code before.length = some instruction.opcode.size := by
  have hfirst : code[before.length]? = some instruction.opcode.toByte := by
    rw [← Array.getElem?_toList, hcode]
    simp [Instruction.bytes]
  have hfits : before.length + instruction.opcode.size ≤ code.size := by
    rw [← Array.length_toList, hcode, List.length_append, List.length_append,
      hwell.length_bytes]
    omega
  simp only [instructionSize?, hfirst, ofByte?_toByte, hfits, ↓reduceIte]

/-- Scanning encoded instructions finds the offset of each. -/
theorem scans_encode {code : Array UInt8} {address : String → Nat}
    {instructions : List Instruction} (before : List UInt8)
    (hwell : ∀ instruction ∈ instructions, instruction.WellFormed)
    (hcode : code.toList = before ++ encode address instructions) :
    Scans code before.length (offsetsOf before.length instructions) code.size := by
  induction instructions generalizing before with
  | nil =>
      have hsize : code.size = before.length := by
        rw [← Array.length_toList, hcode]
        simp [encode]
      rw [hsize]
      refine .stop ?_
      simp [instructionSize?, ← hsize]
  | cons instruction rest ih =>
      obtain ⟨hfirst, hrest⟩ := List.forall_mem_cons.mp hwell
      refine .next (instructionSize?_of_split hfirst hcode) ?_
      have hnext := ih (before ++ instruction.bytes address) hrest
        (by rw [hcode, List.append_assoc]; rfl)
      rwa [List.length_append, hfirst.length_bytes] at hnext

/-- The table of the program of some instructions holds the offset of each of them. -/
theorem offsets_ofCode {code : Array UInt8} {address : String → Nat}
    {instructions : List Instruction}
    (hwell : ∀ instruction ∈ instructions, instruction.WellFormed)
    (hcode : code.toList = encode address instructions) :
    (Cluster.ofCode code).offsets.toList = offsetsOf 0 instructions ∧
      (Cluster.ofCode code).Covered :=
  Cluster.offsets_of_scans (scans_encode [] hwell hcode)

end Octet
