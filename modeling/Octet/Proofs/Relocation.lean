import Octet.Proofs.Disassembly
import Octet.Proofs.Reporting
import Octet.Proofs.Source.Joining

/-! # Programs of joined sources

When two sources with different labels are joined by a line break, the program is that
of the first one followed by that of the second one, moved up by the size of the
first: its branches go as much further as its instructions have moved. The labels of
the first source keep their addresses, also one at its very end, which then stands for
the start of the second program.
-/

namespace Octet

/-! ### Moving a program -/

/-- The bytes of an operand of a program that is moved up. -/
def raisedBytes (code : Array UInt8) (distance : Nat) : OperandKind × Nat → List UInt8
  | (.register, position) | (.immediate, position) => [code.getD position 0]
  | (.label, position) =>
    let target := addressOfBytes (code.getD position 0) (code.getD (position + 1) 0) + distance
    [(addressBytes target).1, (addressBytes target).2]

/-- The bytes of a program whose instructions have moved up: every branch goes as much further. -/
def Cluster.raised (cluster : Cluster) (distance : Nat) : List UInt8 :=
  cluster.offsets.toList.flatMap fun offset =>
    let byte := cluster.code.getD offset 0
    let kinds := (Opcode.ofByte? byte).elim [] Opcode.operands
    byte :: (operandPositions (offset + 1) kinds).flatMap (raisedBytes cluster.code distance)

section Raised

variable {registers : Nat} {statements : List Statement} {code : Array UInt8}

/-- An operand is raised by raising the address of its label. -/
theorem raisedBytes_of_operandAt {position : Nat} {value : OperandValue}
    (hvalue : OperandAt registers statements code position value) (distance : Nat) :
    raisedBytes code distance (value.kind, position) =
      value.bytes fun name => addressIn statements name + distance := by
  cases value with
  | register index => exact congrArg (fun byte => [byte]) hvalue.1
  | immediate number => exact congrArg (fun byte => [byte]) hvalue
  | label name =>
      obtain ⟨target, hpoint, -, haddress⟩ := hvalue
      have hknown : addressIn statements name = offsetOf (instructionsOf statements) target := by
        simp [addressIn, labelAddress?, hpoint]
      simp only [raisedBytes, OperandValue.kind, OperandValue.bytes, haddress, hknown]

theorem raisedBytes_of_operandsAt {position : Nat} {values : List OperandValue}
    (hvalues : OperandsAt registers statements code position values) (distance : Nat) :
    (operandPositions position (values.map OperandValue.kind)).flatMap
        (raisedBytes code distance) =
      values.flatMap fun value => value.bytes fun name => addressIn statements name + distance := by
  induction values generalizing position with
  | nil => rfl
  | cons value values ih =>
      rw [List.map_cons, operandPositions, List.flatMap_cons, List.flatMap_cons, ih hvalues.2,
        raisedBytes_of_operandAt hvalues.1]

theorem flatMap_offsetsOf {start : Nat} {instructions : List Instruction}
    {atOffset : Nat → List UInt8} {bytes : Instruction → List UInt8}
    (hbytes : ∀ index instruction, instructions[index]? = some instruction →
      atOffset (start + offsetOf instructions index) = bytes instruction) :
    (offsetsOf start instructions).flatMap atOffset = instructions.flatMap bytes := by
  induction instructions generalizing start with
  | nil => rfl
  | cons instruction rest ih =>
      have hfirst : atOffset start = bytes instruction := hbytes 0 instruction rfl
      have hrest : ∀ index other, rest[index]? = some other →
          atOffset (start + instruction.opcode.size + offsetOf rest index) = bytes other := by
        intro index other hindex
        rw [← hbytes (index + 1) other hindex]
        simp only [offsetOf, codeSize, List.take_succ_cons, List.map_cons, List.sum_cons,
          Nat.add_assoc]
      rw [offsetsOf, List.flatMap_cons, List.flatMap_cons, hfirst, ih hrest]

/-- The program of some statements, moved up, is their program with higher addresses. -/
theorem IsProgram.raised (hprogram : IsProgram registers statements code) (distance : Nat) :
    (Cluster.ofCode code).raised distance =
      encode (fun name => addressIn statements name + distance) (instructionsOf statements) := by
  rw [Cluster.raised, (offsets_ofCode hprogram.wellFormed hprogram.bytes).1, encode]
  refine flatMap_offsetsOf fun index instruction hindex => ?_
  have hopcode := hprogram.ofByte?_code hindex
  rw [Nat.zero_add]
  have hcode : (Cluster.ofCode code).code = code := rfl
  simp only [hcode, hopcode, Option.elim_some]
  rw [hprogram.kinds (List.mem_of_getElem? hindex),
    raisedBytes_of_operandsAt (hprogram.operandsAt hindex), List.flatMap_map,
    ← toByte_of_ofByte? hopcode]
  rfl

end Raised

/-! ### Labels of joined statements -/

/-- Behind other statements, a label that they do not define is moved by the size of their code. -/
theorem labelAddress?_append_list (statements others : List Statement) (name : String) :
    labelAddress? (statements ++ others) name =
      (labelAddress? statements name).or
        ((labelAddress? others name).map (· + codeSize (instructionsOf statements))) := by
  induction others using List.reverseRecOn with
  | nil => simp [labelAddress?, labelPoint?]
  | append_singleton others last ih =>
      rw [← List.append_assoc, labelAddress?_append, ih, labelAddress?_append,
        instructionsOf_append, codeSize_append, Option.or_assoc, Option.map_or]
      congr 2
      split
      · simp [Nat.add_comm]
      · rfl

/-- A label of the first statements keeps its address. -/
theorem addressIn_append_left {statements : List Statement} {name : String}
    (hmem : name ∈ labelsOf statements) (others : List Statement) :
    addressIn (statements ++ others) name = addressIn statements name := by
  obtain ⟨address, haddress⟩ := Option.isSome_iff_exists.mp (isSome_labelAddress?_iff.mpr hmem)
  rw [addressIn, labelAddress?_append_list, haddress, Option.some_or, addressIn, haddress]

/-- A label of the second statements moves up by the size of the first ones. -/
theorem addressIn_append_right {statements others : List Statement} {name : String}
    (hfirst : name ∉ labelsOf statements) (hmem : name ∈ labelsOf others) :
    addressIn (statements ++ others) name =
      addressIn others name + codeSize (instructionsOf statements) := by
  obtain ⟨address, haddress⟩ := Option.isSome_iff_exists.mp (isSome_labelAddress?_iff.mpr hmem)
  rw [addressIn, labelAddress?_append_list, labelAddress?_eq_none_iff.mpr hfirst, haddress,
    Option.none_or, addressIn, haddress]
  rfl

/-- Only the labels that instructions use bear on their code. -/
theorem encode_congr {instructions : List Instruction} {address other : String → Nat}
    (hsame : ∀ instruction ∈ instructions,
      instruction.UsesLabels fun name => address name = other name) :
    encode address instructions = encode other instructions := by
  have hvalue {value : OperandValue}
      (hlabel : ∀ name, value = .label name → address name = other name) :
      value.bytes address = value.bytes other := by
    cases value with
    | register index => rfl
    | immediate number => rfl
    | label name => simp only [OperandValue.bytes, hlabel name rfl]
  refine List.flatMap_congr fun instruction hmem => ?_
  rw [Instruction.bytes, Instruction.bytes]
  refine congrArg _ (List.flatMap_congr fun operand hoperand => ?_)
  exact hvalue (hsame instruction hmem operand hoperand)

/-! ### Places do not matter -/

section Unplaced

theorem instructionsOf_unplaced (statements : List Statement) :
    instructionsOf (statements.map Statement.unplaced) =
      (instructionsOf statements).map Instruction.unplaced := by
  rw [instructionsOf, List.filterMap_map, instructionsOf, List.map_filterMap]
  rfl

theorem labelsOf_unplaced (statements : List Statement) :
    labelsOf (statements.map Statement.unplaced) = labelsOf statements := by
  rw [labelsOf, List.filterMap_map, labelsOf]
  rfl

theorem codeSize_unplaced (instructions : List Instruction) :
    codeSize (instructions.map Instruction.unplaced) = codeSize instructions := by
  rw [codeSize, List.map_map, codeSize]
  rfl

theorem encode_unplaced (address : String → Nat) (instructions : List Instruction) :
    encode address (instructions.map Instruction.unplaced) = encode address instructions := by
  rw [encode, List.flatMap_map, encode]
  refine List.flatMap_congr fun instruction _ => ?_
  simp only [Instruction.bytes, Instruction.unplaced, List.flatMap_map]
  rfl

theorem addressIn_unplaced (statements : List Statement) :
    addressIn (statements.map Statement.unplaced) = addressIn statements := by
  funext name
  rw [addressIn, addressIn]
  congr 1
  induction statements using List.reverseRecOn with
  | nil => rfl
  | append_singleton statements last ih =>
      rw [List.map_append, List.map_singleton, labelAddress?_append, labelAddress?_append, ih,
        instructionsOf_unplaced, codeSize_unplaced]
      rfl

variable {statements others : List Statement}
  (hsame : statements.map Statement.unplaced = others.map Statement.unplaced)

include hsame

/-- Statements that differ in places only define the same labels. -/
theorem labelsOf_of_unplaced : labelsOf statements = labelsOf others := by
  rw [← labelsOf_unplaced, hsame, labelsOf_unplaced]

/-- Statements that differ in places only have the same code. -/
theorem encode_of_unplaced :
    encode (addressIn statements) (instructionsOf statements) =
      encode (addressIn others) (instructionsOf others) := by
  rw [← encode_unplaced, ← instructionsOf_unplaced, ← addressIn_unplaced statements, hsame,
    instructionsOf_unplaced, encode_unplaced, addressIn_unplaced]

/-- What the operands of all instructions satisfy does not depend on places. -/
theorem forall_operands_of_unplaced {property : OperandValue → Prop}
    (hothers : ∀ instruction ∈ instructionsOf others, ∀ operand ∈ instruction.operands,
      property operand.value) :
    ∀ instruction ∈ instructionsOf statements, ∀ operand ∈ instruction.operands,
      property operand.value := by
  intro instruction hmem operand hoperand
  have hmapped : instruction.unplaced ∈ (instructionsOf others).map Instruction.unplaced := by
    rw [← instructionsOf_unplaced, ← hsame, instructionsOf_unplaced]
    exact List.mem_map_of_mem hmem
  obtain ⟨other, hother, hunplaced⟩ := List.mem_map.mp hmapped
  have hvalue : operand.unplaced ∈ other.operands.map Operand.unplaced := by
    have hoperands := congrArg Instruction.operands hunplaced
    simp only [Instruction.unplaced] at hoperands
    rw [hoperands]
    exact List.mem_map_of_mem hoperand
  obtain ⟨found, hfound, hplaces⟩ := List.mem_map.mp hvalue
  have hvalues : found.value = operand.value := (Operand.mk.inj hplaces).1
  rw [← hvalues]
  exact hothers other hother found hfound

theorem usesLabels_of_unplaced {defined : String → Prop}
    (hothers : ∀ instruction ∈ instructionsOf others, instruction.UsesLabels defined) :
    ∀ instruction ∈ instructionsOf statements, instruction.UsesLabels defined :=
  @forall_operands_of_unplaced statements others hsame
    (fun value => ∀ name, value = .label name → defined name) hothers

theorem usesRegisters_of_unplaced {registers : Nat}
    (hothers : ∀ instruction ∈ instructionsOf others, instruction.UsesRegisters registers) :
    ∀ instruction ∈ instructionsOf statements, instruction.UsesRegisters registers :=
  @forall_operands_of_unplaced statements others hsame
    (fun value => ∀ index, value = .register index → index.toNat < registers) hothers

end Unplaced

/-! ### Joined sources -/

/-- What is known of a source that is assembled. -/
theorem Assembler.accepted_of_assemble {registers : Nat} {assembler : Assembler}
    (hready : assembler.Ready registers) {name : String} {source : Source} {cluster : Cluster}
    (hresult : (assembler.assemble name source).result = .ok cluster) :
    source.parse.notices = [] ∧ (labelsOf source.parse.statements).Nodup ∧
      IsProgram registers source.parse.statements cluster.code ∧
      cluster = Cluster.ofCode cluster.code := by
  obtain ⟨hprogram, hcluster⟩ := Assembler.isProgram_of_assemble hready hresult
  rcases assembler.assemble_cases name source with
    ⟨_, -, hnone, -⟩ | ⟨diagnostics, hrefused, -⟩
  · obtain ⟨hparsed, hemitted⟩ := recorded_eq_nil_iff.mp hnone
    rw [hready.registers, hready.labels] at hemitted
    have hiff := notices_emitStatements_iff registers hready.code (wellFormed_of_parse source)
    exact ⟨hparsed, (hiff.mp hemitted).1, hprogram, hcluster⟩
  · cases hresult.symm.trans hrefused

/-- A source with the statements of one that is assembled, at other places, gives the same program. -/
theorem Assembler.result_of_unplaced {registers : Nat} {assembler fresh : Assembler}
    (hready : assembler.Ready registers) (hfresh : fresh.Ready registers) {name other : String}
    {source changed : Source} {cluster : Cluster}
    (hresult : (assembler.assemble name source).result = .ok cluster)
    (hnotices : changed.parse.notices = [])
    (hsame : changed.parse.statements.map Statement.unplaced =
      source.parse.statements.map Statement.unplaced) :
    (fresh.assemble other changed).result = .ok cluster := by
  obtain ⟨-, hnodup, hprogram, hcluster⟩ := accepted_of_assemble hready hresult
  have hparse : changed.parse = ⟨changed.parse.statements, []⟩ := by rw [← hnotices]
  rw [hcluster]
  refine result_of_encode hfresh other hparse hprogram.fits ?_ ?_ ?_ ?_
  · rwa [labelsOf_of_unplaced hsame]
  · refine usesLabels_of_unplaced hsame fun instruction hmem => ?_
    rw [labelsOf_of_unplaced hsame]
    exact (hprogram.labels instruction hmem).imp fun label hlabel => mem_labelsOf_iff.mpr hlabel
  · exact usesRegisters_of_unplaced hsame hprogram.registers
  · rw [encode_of_unplaced hsame, hprogram.bytes]

/-- The program of the statements of two sources is that of the first one and then that of the
second one, moved up. -/
theorem encode_of_programs {registers : Nat} {statements others : List Statement}
    {code more : Array UInt8} (hprogram : IsProgram registers statements code)
    (hmore : IsProgram registers others more)
    (hdisjoint : List.Disjoint (labelsOf statements) (labelsOf others)) :
    encode (addressIn (statements ++ others)) (instructionsOf (statements ++ others)) =
      code.toList ++ (Cluster.ofCode more).raised code.size := by
  rw [instructionsOf_append, encode_append, hprogram.bytes, hmore.raised, hprogram.size]
  congr 1
  · refine encode_congr fun instruction hmem => ?_
    refine (hprogram.labels instruction hmem).imp fun name hname => ?_
    exact addressIn_append_left (mem_labelsOf_iff.mpr hname) others
  · refine encode_congr fun instruction hmem => ?_
    refine (hmore.labels instruction hmem).imp fun name hname => ?_
    have hlater : name ∈ labelsOf others := mem_labelsOf_iff.mpr hname
    exact addressIn_append_right (fun hfirst => hdisjoint hfirst hlater) hlater

/-- Two sources that are assembled for as many registers, that define no label in common and whose
programs fit together, are assembled with a line break between them, unless there is a byte order
mark behind it: the program is that of the first source, followed by that of the second one with the
target of every branch increased by the size of the first. -/
theorem assemble_joined {registers : Int} {first second joint : Assembler}
    (hfirst : first.Reachable registers) (hsecond : second.Reachable registers)
    (hjoint : joint.Reachable registers) {bytes more : List UInt8} {name other : String}
    {cluster later : Cluster}
    (hbytes : (first.assemble name (.ofBytes bytes none)).result = .ok cluster)
    (hmore : (second.assemble other (.ofBytes more none)).result = .ok later)
    (hmark : (decodeUtf8 more).head? ≠ some (.char '\ufeff'))
    (hdisjoint : List.Disjoint (labelsOf (Source.ofBytes bytes none).parse.statements)
      (labelsOf (Source.ofBytes more none).parse.statements))
    (hfits : cluster.size + later.size ≤ maxClusterSize) (joined : String) :
    (joint.assemble joined (.ofBytes (bytes ++ 10 :: more) none)).result =
      .ok (.ofCode (cluster.code ++ later.raised cluster.size)) := by
  obtain ⟨hparsed, hnodup, hprogram, -⟩ := Assembler.accepted_of_assemble hfirst.ready hbytes
  obtain ⟨hunnoticed, hunique, hnext, hlater⟩ :=
    Assembler.accepted_of_assemble hsecond.ready hmore
  -- the joined source gives the statements of both, at other places
  obtain ⟨hnotices, hsame⟩ := Source.parse_append_break hparsed hunnoticed hmark
  have hencode := encode_of_programs hprogram hnext hdisjoint
  rw [← hlater, ← encode_of_unplaced hsame] at hencode
  have hlabels : labelsOf (Source.ofBytes (bytes ++ 10 :: more) none).parse.statements =
      labelsOf (Source.ofBytes bytes none).parse.statements ++
        labelsOf (Source.ofBytes more none).parse.statements := by
    rw [labelsOf_of_unplaced hsame]
    exact List.filterMap_append
  have hlength : (later.raised cluster.size).length = later.size := by
    rw [hlater, hnext.raised, length_encode hnext.wellFormed, ← hnext.size]
    rfl
  have hparse : (Source.ofBytes (bytes ++ 10 :: more) none).parse =
      ⟨(Source.ofBytes (bytes ++ 10 :: more) none).parse.statements, []⟩ := by
    rw [← hnotices]
  refine Assembler.result_of_encode hjoint.ready joined hparse ?_ ?_ ?_ ?_ ?_
  · rw [← Array.length_toList, Array.toList_appendList, List.length_append, hlength,
      Array.length_toList]
    exact hfits
  · rw [hlabels]
    exact hnodup.append hunique hdisjoint
  · refine usesLabels_of_unplaced hsame fun instruction hmem => ?_
    rw [instructionsOf_append] at hmem
    rw [hlabels]
    rcases List.mem_append.mp hmem with hearly | hlate
    · refine (hprogram.labels instruction hearly).imp fun label hlabel => ?_
      exact List.mem_append_left _ (mem_labelsOf_iff.mpr hlabel)
    · refine (hnext.labels instruction hlate).imp fun label hlabel => ?_
      exact List.mem_append_right _ (mem_labelsOf_iff.mpr hlabel)
  · refine usesRegisters_of_unplaced hsame fun instruction hmem => ?_
    rw [instructionsOf_append] at hmem
    rcases List.mem_append.mp hmem with hearly | hlate
    · exact hprogram.registers instruction hearly
    · exact hnext.registers instruction hlate
  · rw [hencode, Array.toList_appendList]
    rfl

/-- A source with a branch to the label at its end. -/
def branchToEnd : List UInt8 := utf8Bytes "a: jmp b\nb:"

/-- A source with a branch to its start. -/
def branchToStart : List UInt8 := utf8Bytes "c: jmp c"

theorem parse_branches :
    (Source.ofBytes branchToEnd none).parse =
        ⟨[⟨⟨3, 1, 4⟩, some "a", some ⟨.branch .always, [⟨.label "b", ⟨7, 1, 8⟩⟩]⟩⟩,
          ⟨⟨9, 2, 1⟩, some "b", none⟩], []⟩ ∧
      (Source.ofBytes branchToStart none).parse =
        ⟨[⟨⟨3, 1, 4⟩, some "c", some ⟨.branch .always, [⟨.label "c", ⟨7, 1, 8⟩⟩]⟩⟩], []⟩ := by
  have hparts {parsed : Parsed} {statements : List Statement}
      (hstatements : parsed.statements = statements) (hnotices : parsed.notices = []) :
      parsed = ⟨statements, []⟩ := by
    rw [← hstatements, ← hnotices]
  exact ⟨hparts (by decide +kernel) (by decide +kernel),
    hparts (by decide +kernel) (by decide +kernel)⟩

/-- Each of the two sources has a program of its own. -/
theorem assemble_branches :
    ((⟨1, false, .empty, .empty⟩ : Assembler).assemble "" (.ofBytes branchToEnd none)).result =
        .ok (.ofCode #[34, 3, 0]) ∧
      ((⟨1, false, .empty, .empty⟩ : Assembler).assemble "" (.ofBytes branchToStart none)).result =
        .ok (.ofCode #[34, 0, 0]) := by
  obtain ⟨hend, hstart⟩ := parse_branches
  refine ⟨Assembler.result_of_encode ⟨rfl, rfl, rfl⟩ "" hend ?_ ?_ ?_ ?_ ?_,
    Assembler.result_of_encode ⟨rfl, rfl, rfl⟩ "" hstart ?_ ?_ ?_ ?_ ?_⟩
  all_goals first
    | decide +kernel
    | simp [instructionsOf, labelsOf, Instruction.UsesLabels, Instruction.UsesRegisters]

/-- A branch to the end of the first source, and in the second one a branch to its start, which is
moved. -/
theorem assemble_joined_of_branches :
    ((⟨1, false, .empty, .empty⟩ : Assembler).assemble ""
        (.ofBytes (branchToEnd ++ 10 :: branchToStart) none)).result =
      .ok (.ofCode #[34, 3, 0, 34, 3, 0]) := by
  have hassembler : Assembler.Reachable 1 ⟨1, false, .empty, .empty⟩ := .new rfl
  have hlabels : labelsOf (Source.ofBytes branchToEnd none).parse.statements = ["a", "b"] ∧
      labelsOf (Source.ofBytes branchToStart none).parse.statements = ["c"] := by
    decide +kernel
  have hjoined := assemble_joined hassembler hassembler hassembler assemble_branches.1
    assemble_branches.2 (by decide +kernel) (by simp [hlabels]) (by decide) ""
  have hcode : (#[34, 3, 0] : Array UInt8) ++ (Cluster.ofCode #[34, 0, 0]).raised 3 =
      #[34, 3, 0, 34, 3, 0] := by
    decide +kernel
  rw [hjoined]
  exact congrArg (fun code => Except.ok (Cluster.ofCode code)) hcode

end Octet
