import Octet.Proofs.Machine.Validity
import Octet.Proofs.Source.Emission

/-! # Reading a program back

What stands where in the program of some statements: its instructions are those of
its table, their operands are in the bytes behind their codes, and the target of a
branch is the offset of the instruction that its label stands before.
-/

namespace Octet

/-- An operand of the program of some statements stands at a position. -/
def OperandAt (registers : Nat) (statements : List Statement) (code : Array UInt8)
    (position : Nat) : OperandValue → Prop
  | .register index => code.getD position 0 = index ∧ index.toNat < registers
  | .immediate value => code.getD position 0 = value
  | .label name => ∃ target, labelPoint? statements name = some target ∧
      target ≤ (instructionsOf statements).length ∧
      addressOfBytes (code.getD position 0) (code.getD (position + 1) 0) =
        offsetOf (instructionsOf statements) target

/-- Some operands stand one behind the other from a position on. -/
def OperandsAt (registers : Nat) (statements : List Statement) (code : Array UInt8) :
    Nat → List OperandValue → Prop
  | _, [] => True
  | position, value :: values => OperandAt registers statements code position value ∧
      OperandsAt registers statements code (position + value.kind.size) values

section Operands

variable {registers : Nat} {statements : List Statement} {code : Array UInt8}

theorem OperandAt.mono {position : Nat} {value : OperandValue}
    (hvalue : OperandAt registers statements code position value) {more : Nat}
    (hle : registers ≤ more) : OperandAt more statements code position value := by
  cases value with
  | register index => exact ⟨hvalue.1, Nat.lt_of_lt_of_le hvalue.2 hle⟩
  | immediate value => exact hvalue
  | label name => exact hvalue

theorem OperandsAt.mono {position : Nat} {values : List OperandValue}
    (hvalues : OperandsAt registers statements code position values) {more : Nat}
    (hle : registers ≤ more) : OperandsAt more statements code position values := by
  induction values generalizing position with
  | nil => trivial
  | cons value values ih => exact ⟨hvalues.1.mono hle, ih hvalues.2⟩

theorem OperandsAt.exists_of_mem {start position : Nat} {values : List OperandValue}
    {kind : OperandKind} (hvalues : OperandsAt registers statements code start values)
    (hmem : (kind, position) ∈ operandPositions start (values.map OperandValue.kind)) :
    ∃ value, value.kind = kind ∧ OperandAt registers statements code position value := by
  induction values generalizing start with
  | nil => cases hmem
  | cons value values ih =>
      rcases List.mem_cons.mp hmem with hfirst | hrest
      · obtain ⟨rfl, rfl⟩ := Prod.mk.inj hfirst
        exact ⟨value, rfl, hvalues.1⟩
      · exact ih hvalues.2 hrest

end Operands

namespace IsProgram

variable {registers : Nat} {statements : List Statement} {code : Array UInt8} {index : Nat}
  {instruction : Instruction}

/-- The operands of a program have the kinds of their opcodes. -/
theorem kinds (hprogram : IsProgram registers statements code)
    (hmem : instruction ∈ instructionsOf statements) :
    instruction.opcode.operands =
      (instruction.operands.map Operand.value).map OperandValue.kind := by
  rw [hprogram.wellFormed instruction hmem, List.map_map]
  rfl

/-- The code is as large as its instructions. -/
theorem size (hprogram : IsProgram registers statements code) :
    code.size = codeSize (instructionsOf statements) := by
  rw [← Array.length_toList, hprogram.bytes, length_encode hprogram.wellFormed]

/-- The bytes of an instruction stand at its offset. -/
theorem getD_code (hprogram : IsProgram registers statements code)
    (hindex : (instructionsOf statements)[index]? = some instruction)
    {distance : Nat} (hlt : distance < instruction.opcode.size) :
    code.getD (offsetOf (instructionsOf statements) index + distance) 0 =
      (instruction.bytes (addressIn statements)).getD distance 0 := by
  obtain ⟨before, after, hsplit, hbefore⟩ :=
    exists_encode_split hprogram.wellFormed (addressIn statements) hindex
  have hlength := (hprogram.wellFormed instruction (List.mem_of_getElem? hindex)).length_bytes
    (addressIn statements)
  rw [Array.getD_eq_getD_getElem?, ← Array.getElem?_toList, hprogram.bytes, hsplit, ← hbefore,
    List.getElem?_append_right (Nat.le_add_right _ _), Nat.add_sub_cancel_left,
    List.getElem?_append_left (by omega), List.getD_eq_getElem?_getD]

/-- At the offset of an instruction there is its opcode. -/
theorem ofByte?_code (hprogram : IsProgram registers statements code)
    (hindex : (instructionsOf statements)[index]? = some instruction) :
    Opcode.ofByte? (code.getD (offsetOf (instructionsOf statements) index) 0) =
      some instruction.opcode := by
  have hcode := hprogram.getD_code hindex
    (show 0 < instruction.opcode.size by unfold Opcode.size; omega)
  rw [Nat.add_zero] at hcode
  rw [hcode]
  exact ofByte?_toByte instruction.opcode

/-! ### The table -/

/-- The table has one entry for each instruction. -/
theorem count (hprogram : IsProgram registers statements code) :
    (Cluster.ofCode code).count = (instructionsOf statements).length := by
  rw [Cluster.count, ← Array.length_toList, (offsets_ofCode hprogram.wellFormed hprogram.bytes).1,
    length_offsetsOf]

/-- The table has the offsets of the instructions. -/
theorem mem_offsets_iff (hprogram : IsProgram registers statements code) {offset : Nat} :
    offset ∈ (Cluster.ofCode code).offsets ↔
      ∃ index < (instructionsOf statements).length,
        offset = offsetOf (instructionsOf statements) index := by
  rw [← Array.mem_toList_iff, (offsets_ofCode hprogram.wellFormed hprogram.bytes).1,
    List.mem_iff_getElem?]
  constructor
  · rintro ⟨index, hindex⟩
    have hlt : index < (instructionsOf statements).length := by
      rw [← length_offsetsOf 0]
      exact (List.getElem?_eq_some_iff.mp hindex).1
    rw [getElem?_offsetsOf hlt, Nat.zero_add, Option.some.injEq] at hindex
    exact ⟨index, hlt, hindex.symm⟩
  · rintro ⟨index, hlt, rfl⟩
    exact ⟨index, by rw [getElem?_offsetsOf hlt, Nat.zero_add]⟩

/-- The offset of an instruction, or of the end, is a branch target. -/
theorem isTarget_offsetOf (hprogram : IsProgram registers statements code)
    (hle : index ≤ (instructionsOf statements).length) :
    (Cluster.ofCode code).isTarget (offsetOf (instructionsOf statements) index) = true := by
  rw [Cluster.isTarget_iff]
  rcases Nat.lt_or_eq_of_le hle with hlt | rfl
  · exact .inr (hprogram.mem_offsets_iff.mpr ⟨index, hlt, rfl⟩)
  · rw [offsetOf_length]
    exact .inl hprogram.size.symm

/-! ### Operands -/

/-- The address of a label is the offset of the instruction it stands before. -/
theorem addressIn_label (hprogram : IsProgram registers statements code)
    (hmem : instruction ∈ instructionsOf statements) {operand : Operand}
    (hoperand : operand ∈ instruction.operands) {name : String}
    (hname : operand.value = .label name) :
    ∃ target, labelPoint? statements name = some target ∧
      target ≤ (instructionsOf statements).length ∧
      addressIn statements name = offsetOf (instructionsOf statements) target := by
  obtain ⟨target, htarget⟩ :=
    Option.isSome_iff_exists.mp (hprogram.labels instruction hmem operand hoperand name hname)
  exact ⟨target, htarget, labelPoint?_le htarget, by simp [addressIn, labelAddress?, htarget]⟩

/-- The offset of an instruction can be stored as an address. -/
theorem addressOfBytes_offsetOf (hprogram : IsProgram registers statements code) (target : Nat) :
    addressOfBytes (addressBytes (offsetOf (instructionsOf statements) target)).1
        (addressBytes (offsetOf (instructionsOf statements) target)).2 =
      offsetOf (instructionsOf statements) target := by
  apply addressOfBytes_addressBytes
  have hle := offsetOf_le (instructionsOf statements) target
  rw [← hprogram.size] at hle
  exact Nat.le_trans hle hprogram.fits

/-- The operands of an instruction stand behind its code. -/
theorem operandsAt (hprogram : IsProgram registers statements code)
    (hindex : (instructionsOf statements)[index]? = some instruction) :
    OperandsAt registers statements code (offsetOf (instructionsOf statements) index + 1)
      (instruction.operands.map Operand.value) := by
  have hmem := List.mem_of_getElem? hindex
  have hlength := (hprogram.wellFormed instruction hmem).length_bytes (addressIn statements)
  -- by induction over the operands that are left, behind the bytes of the others
  suffices hrest : ∀ (rest : List Operand) (before : List UInt8),
      (∀ operand ∈ rest, operand ∈ instruction.operands) →
      instruction.bytes (addressIn statements) =
        before ++ rest.flatMap (fun operand => operand.value.bytes (addressIn statements)) →
      OperandsAt registers statements code
        (offsetOf (instructionsOf statements) index + before.length) (rest.map Operand.value) from
    hrest instruction.operands [instruction.opcode.toByte] (fun _ => id) rfl
  intro rest
  induction rest with
  | nil => exact fun _ _ _ => trivial
  | cons operand rest ih =>
      intro before hoperands hsplit
      obtain ⟨hoperand, hothers⟩ := List.forall_mem_cons.mp hoperands
      rw [hsplit, List.length_append, List.flatMap_cons, List.length_append, length_bytes]
        at hlength
      have hbytes {further : Nat} (hlt : further < operand.value.kind.size) :
          code.getD (offsetOf (instructionsOf statements) index + before.length + further) 0 =
            (operand.value.bytes (addressIn statements)).getD further 0 := by
        rw [Nat.add_assoc, hprogram.getD_code hindex (by omega), hsplit, List.flatMap_cons,
          List.getD_eq_getElem?_getD, List.getElem?_append_right (Nat.le_add_right _ _),
          Nat.add_sub_cancel_left, List.getElem?_append_left (by rw [length_bytes]; exact hlt),
          List.getD_eq_getElem?_getD]
      refine ⟨?_, ?_⟩
      · cases hvalue : operand.value with
        | register found =>
            rw [hvalue] at hbytes
            exact ⟨hbytes Nat.one_pos,
              hprogram.registers instruction hmem operand hoperand found hvalue⟩
        | immediate value =>
            rw [hvalue] at hbytes
            exact hbytes Nat.one_pos
        | label name =>
            obtain ⟨target, htarget, hle, haddress⟩ :=
              hprogram.addressIn_label hmem hoperand hvalue
            rw [hvalue, OperandValue.bytes, haddress] at hbytes
            have hlow := hbytes Nat.two_pos
            rw [Nat.add_zero] at hlow
            refine ⟨target, htarget, hle, ?_⟩
            rw [hlow, hbytes Nat.one_lt_two]
            exact hprogram.addressOfBytes_offsetOf target
      · have hnext := ih (before ++ operand.value.bytes (addressIn statements)) hothers
          (by rw [hsplit, List.flatMap_cons, List.append_assoc])
        rwa [List.length_append, length_bytes, ← Nat.add_assoc] at hnext

/-- The program of some statements is valid. -/
theorem valid (hprogram : IsProgram registers statements code) :
    (Cluster.ofCode code).Valid registers := by
  refine ⟨(offsets_ofCode hprogram.wellFormed hprogram.bytes).2, hprogram.fits, ?_⟩
  rintro offset hoffset opcode hopcode ⟨kind, position⟩ hposition
  obtain ⟨index, hlt, rfl⟩ := hprogram.mem_offsets_iff.mp hoffset
  have hindex := List.getElem?_eq_getElem hlt
  have hcode : (Cluster.ofCode code).code = code := rfl
  rw [hcode, hprogram.ofByte?_code hindex, Option.some.injEq] at hopcode
  rw [← hopcode, hprogram.kinds (List.getElem_mem hlt)] at hposition
  obtain ⟨value, hkind, hvalue⟩ := (hprogram.operandsAt hindex).exists_of_mem hposition
  subst hkind
  cases value with
  | register found =>
      obtain ⟨rfl, hbelow⟩ := hvalue
      exact hbelow
  | immediate value => trivial
  | label name =>
      obtain ⟨target, -, hle, haddress⟩ := hvalue
      have htarget := hprogram.isTarget_offsetOf hle
      rw [← haddress] at htarget
      exact htarget

end IsProgram

end Octet
