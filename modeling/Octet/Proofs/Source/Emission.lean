import Mathlib.Data.List.Induction
import Octet.Proofs.Cluster.Builder
import Octet.Source.Emission

/-! # One pass is enough

The assembler emits statement after statement and leaves the target of a branch
open while its label is not defined. The bytes it has emitted so far are not those
of the program, but they are once the open targets are filled in, whatever addresses
the missing labels will have. This is what every statement preserves.
-/

namespace Octet

/-! ### Filling in open targets -/

/-- Fills in the targets that are open, the last one first. -/
def fill (address : String → Nat) (uses : List LabelUse) (bytes : List UInt8) : List UInt8 :=
  uses.foldr (fun use bytes => writeAddress bytes use.position (address use.name)) bytes

theorem fill_cons (address : String → Nat) (use : LabelUse) (uses : List LabelUse)
    (bytes : List UInt8) :
    fill address (use :: uses) bytes =
      writeAddress (fill address uses bytes) use.position (address use.name) := rfl

theorem fill_append (address : String → Nat) (uses others : List LabelUse) (bytes : List UInt8) :
    fill address (uses ++ others) bytes = fill address uses (fill address others bytes) :=
  List.foldr_append

theorem length_fill (address : String → Nat) (uses : List LabelUse) (bytes : List UInt8) :
    (fill address uses bytes).length = bytes.length := by
  induction uses with
  | nil => rfl
  | cons use uses ih => simpa [fill_cons, writeAddress] using ih

/-- Bytes behind all open targets stay as they are. -/
theorem fill_before {uses : List LabelUse} {bytes : List UInt8}
    (huses : ∀ use ∈ uses, use.position + 2 ≤ bytes.length) (address : String → Nat)
    (after : List UInt8) :
    fill address uses (bytes ++ after) = fill address uses bytes ++ after := by
  induction uses with
  | nil => rfl
  | cons use uses ih =>
      obtain ⟨hfirst, hrest⟩ := List.forall_mem_cons.mp huses
      have hlength := length_fill address uses bytes
      rw [fill_cons, fill_cons, ih hrest, writeAddress, writeAddress,
        List.set_append_left _ _ (by omega), List.set_append_left _ _ (by simp; omega)]

/-- An address replaces two bytes and leaves the others. -/
theorem writeAddress_append (before after : List UInt8) (low high : UInt8) (address : Nat) :
    writeAddress (before ++ low :: high :: after) before.length address =
      before ++ (addressBytes address).1 :: (addressBytes address).2 :: after := by
  simp [writeAddress]

/-! ### What is known of the program so far -/

/-- The registers that an instruction names are below the given number. -/
def Instruction.UsesRegisters (registers : Nat) (instruction : Instruction) : Prop :=
  ∀ operand ∈ instruction.operands, ∀ index, operand.value = .register index →
    index.toNat < registers

/-- The labels that an instruction names are among those that `defined` selects. -/
def Instruction.UsesLabels (defined : String → Prop) (instruction : Instruction) : Prop :=
  ∀ operand ∈ instruction.operands, ∀ name, operand.value = .label name → defined name

theorem Instruction.UsesLabels.imp {defined more : String → Prop} {instruction : Instruction}
    (huses : instruction.UsesLabels defined) (himp : ∀ name, defined name → more name) :
    instruction.UsesLabels more :=
  fun operand hoperand name hname => himp name (huses operand hoperand name hname)

/-- The addresses agree with those that are known. -/
def Extends (address? : String → Option Nat) (address : String → Nat) : Prop :=
  ∀ name known, address? name = some known → address name = known

/-- The label is defined, or one of the uses waits for its definition. -/
def DefinedOrOpen (address? : String → Option Nat) (uses : List LabelUse) (name : String) : Prop :=
  (address? name).isSome ∨ ∃ use ∈ uses, use.name = name

theorem DefinedOrOpen.mono {address? : String → Option Nat} {uses more : List LabelUse}
    {name : String} (hname : DefinedOrOpen address? uses name)
    (hsubset : ∀ use ∈ uses, use ∈ more) : DefinedOrOpen address? more name := by
  rcases hname with hsome | ⟨use, huse, hsame⟩
  · exact .inl hsome
  · exact .inr ⟨use, hsubset use huse, hsame⟩

/-- What the labels table knows, as a function. -/
def LabelTable.address? (labels : LabelTable) (name : String) : Option Nat :=
  (labels.site? name).map LabelSite.address

/-- A program under construction holds the given instructions, up to open targets. -/
structure Emission.Holds (registers : Nat) (instructions : List Instruction)
    (emission : Emission) : Prop where
  full : emission.full = false
  fits : emission.builder.code.size ≤ maxClusterSize
  addresses : ∀ name address, emission.labels.address? name = some address →
    address ≤ emission.builder.code.size
  positions : ∀ use ∈ emission.labels.pending, use.position + 2 ≤ emission.builder.code.size
  bytes : ∀ address, Extends emission.labels.address? address →
    fill address emission.labels.pending emission.builder.code.toList = encode address instructions
  registers : ∀ instruction ∈ instructions, instruction.UsesRegisters registers
  labels : ∀ instruction ∈ instructions,
    instruction.UsesLabels (DefinedOrOpen emission.labels.address? emission.labels.pending)

/-- The code so far is as large as the instructions so far. -/
theorem Emission.Holds.size {registers : Nat} {instructions : List Instruction}
    {emission : Emission} (hholds : emission.Holds registers instructions)
    (hwell : ∀ instruction ∈ instructions, instruction.WellFormed) :
    emission.builder.code.size = codeSize instructions := by
  have hbytes := hholds.bytes (fun name => (emission.labels.address? name).getD 0)
    fun name known hknown => by simp [hknown]
  have hlength := congrArg List.length hbytes
  rwa [length_fill, length_encode hwell, Array.length_toList] at hlength

/-! ### Labels -/

/-- A new label gets its address, and the others keep theirs. -/
theorem LabelTable.address?_define (labels : LabelTable) (name : String) (site : LabelSite)
    (hdefine : (labels.define name site).1 = none) (other : String) :
    (labels.define name site).2.address? other =
      (labels.address? other).or (if some name = some other then some site.address else none) := by
  unfold LabelTable.define at hdefine ⊢
  split at hdefine
  next => cases hdefine
  next hnone =>
    simp only [LabelTable.address?, LabelTable.site?, Std.HashMap.getElem?_insert] at hnone ⊢
    by_cases hsame : name = other
    · subst hsame
      simp [hnone]
    · simp [hsame]

/-- A label of a statement is defined at the end of the program so far, unless it is defined already;
nothing else changes. -/
theorem Emission.addLabel_spec {emission : Emission} {place : Place} {label : Option String}
    (hnotices : (emission.addLabel place label).notices = []) :
    emission.notices = [] ∧ (emission.addLabel place label).full = emission.full ∧
      (emission.addLabel place label).builder = emission.builder ∧
      (emission.addLabel place label).labels.pending = emission.labels.pending ∧
      ∀ name, (emission.addLabel place label).labels.address? name =
        (emission.labels.address? name).or
          (if label = some name then some emission.builder.code.size else none) := by
  cases label with
  | none => exact ⟨hnotices, rfl, rfl, rfl, fun name => by simp [Emission.addLabel]⟩
  | some defined =>
      have haddress := emission.labels.address?_define defined ⟨place, emission.builder.code.size⟩
      simp only [Emission.addLabel] at hnotices ⊢
      rcases hdefine : emission.labels.define defined ⟨place, emission.builder.code.size⟩ with
        ⟨previous | _, labels⟩
      · rw [hdefine] at hnotices haddress
        refine ⟨hnotices, rfl, rfl, ?_, haddress rfl⟩
        unfold LabelTable.define at hdefine
        split at hdefine
        next => cases hdefine
        next => rw [← (Prod.mk.inj hdefine).2]
      · rw [hdefine] at hnotices
        cases hnotices

/-- A new label keeps the invariant. -/
theorem Emission.Holds.addLabel {registers : Nat} {instructions : List Instruction}
    {emission : Emission} (hholds : emission.Holds registers instructions) {place : Place}
    {label : Option String} (hnotices : (emission.addLabel place label).notices = []) :
    (emission.addLabel place label).Holds registers instructions := by
  obtain ⟨-, hfull, hbuilder, hpending, haddress⟩ := Emission.addLabel_spec hnotices
  have hkeeps {name : String} {known : Nat} (hknown : emission.labels.address? name = some known) :
      (emission.addLabel place label).labels.address? name = some known := by
    simp [haddress, hknown]
  refine ⟨hfull.trans hholds.full, ?_, ?_, ?_, ?_, hholds.registers, ?_⟩
  · rw [hbuilder]
    exact hholds.fits
  · intro name address hname
    rw [hbuilder]
    rw [haddress] at hname
    cases hknown : emission.labels.address? name with
    | some known => exact hholds.addresses name address (by simpa [hknown] using hname)
    | none =>
        simp only [hknown, Option.none_or] at hname
        split at hname
        next => exact Nat.le_of_eq (Option.some.inj hname).symm
        next => cases hname
  · rw [hbuilder, hpending]
    exact hholds.positions
  · intro address hextends
    rw [hbuilder, hpending]
    exact hholds.bytes address fun name known hknown => hextends name known (hkeeps hknown)
  · intro instruction hmem
    refine (hholds.labels instruction hmem).imp ?_
    intro name hdefined
    rw [DefinedOrOpen, hpending]
    apply hdefined.imp_left
    intro hsome
    obtain ⟨known, hknown⟩ := Option.isSome_iff_exists.mp hsome
    rw [hkeeps hknown]
    rfl

/-! ### Operands -/

/-- Some operands of the instruction at `start` have been emitted, of which `uses` are open. -/
structure OperandBytes.Holds (registers start : Nat) (labels : LabelTable)
    (operands : List Operand) (uses : List LabelUse) (result : OperandBytes) : Prop where
  sites : result.labels.sites = labels.sites
  pending : result.labels.pending = uses ++ labels.pending
  positions : ∀ use ∈ uses, use.position + 2 ≤ start + 1 + result.bytes.length
  bytes : ∀ address, Extends labels.address? address → ∀ before, before.length = start + 1 →
    fill address uses (before ++ result.bytes) =
      before ++ operands.flatMap fun operand => operand.value.bytes address
  registers : result.notices = [] → ∀ operand ∈ operands, ∀ index,
    operand.value = .register index → index.toNat < registers
  labels : ∀ operand ∈ operands, ∀ name, operand.value = .label name →
    DefinedOrOpen labels.address? uses name

namespace OperandBytes.Holds

variable {registers start : Nat} {labels : LabelTable} {operands : List Operand}
  {uses : List LabelUse} {result : OperandBytes}

/-- An operand whose bytes are known leaves no target open. -/
theorem addKnown (hholds : result.Holds registers start labels operands uses) {operand : Operand}
    {known : List UInt8} {notices : List Notice}
    (hbytes : ∀ address, Extends labels.address? address → operand.value.bytes address = known)
    (hnotices : notices = [] → result.notices = [])
    (hregister : notices = [] → ∀ index, operand.value = .register index →
      index.toNat < registers)
    (hlabel : ∀ name, operand.value = .label name → (labels.address? name).isSome) :
    (OperandBytes.mk (result.bytes ++ known) result.labels notices).Holds registers start labels
      (operands ++ [operand]) uses := by
  refine ⟨hholds.sites, hholds.pending, ?_, ?_, ?_, ?_⟩
  · intro use huse
    have := hholds.positions use huse
    simp only [List.length_append]
    omega
  · intro address hextends before hbefore
    have hpositions : ∀ use ∈ uses, use.position + 2 ≤ (before ++ result.bytes).length := by
      intro use huse
      rw [List.length_append, hbefore]
      exact hholds.positions use huse
    rw [← List.append_assoc, fill_before hpositions, hholds.bytes address hextends before hbefore]
    simp [hbytes address hextends]
  · intro hempty
    rw [List.forall_mem_append]
    exact ⟨hholds.registers (hnotices hempty), by simpa using hregister hempty⟩
  · rw [List.forall_mem_append]
    exact ⟨hholds.labels, by simpa using fun name hname => .inl (hlabel name hname)⟩

/-- A label without an address is open: its target is to be filled in where it stands. -/
theorem addOpen (hholds : result.Holds registers start labels operands uses) {operand : Operand}
    {name : String} (hname : operand.value = .label name) (low high : UInt8) :
    let use : LabelUse := ⟨name, operand.place, start + 1 + result.bytes.length⟩
    (OperandBytes.mk (result.bytes ++ [low, high]) ⟨labels.sites, use :: uses ++ labels.pending⟩
      result.notices).Holds registers start labels (operands ++ [operand]) (use :: uses) := by
  refine ⟨rfl, rfl, ?_, ?_, ?_, ?_⟩
  · intro use huse
    rw [List.length_append]
    rcases List.mem_cons.mp huse with rfl | holder
    · exact Nat.le_refl _
    · have := hholds.positions use holder
      omega
  · intro address hextends before hbefore
    have hpositions : ∀ use ∈ uses, use.position + 2 ≤ (before ++ result.bytes).length := by
      intro use huse
      rw [List.length_append, hbefore]
      exact hholds.positions use huse
    have hfilled := hholds.bytes address hextends before hbefore
    have hlength : (before ++ operands.flatMap fun operand => operand.value.bytes address).length =
        start + 1 + result.bytes.length := by
      rw [← hfilled, length_fill, List.length_append, hbefore]
    -- the open target stands behind the others, so they are filled in without it
    rw [fill_cons, ← List.append_assoc, fill_before hpositions, hfilled, ← hlength,
      writeAddress_append]
    simp [hname, OperandValue.bytes]
  · intro hempty
    rw [List.forall_mem_append]
    exact ⟨hholds.registers hempty, by simp [hname]⟩
  · rw [List.forall_mem_append]
    constructor
    · intro other hother found hfound
      exact (hholds.labels other hother found hfound).mono fun use => List.mem_cons_of_mem _
    · simp [hname, DefinedOrOpen]

/-- An operand is appended to those before it, and an unknown label is left open. -/
theorem add (hholds : result.Holds registers start labels operands uses) (operand : Operand) :
    ∃ more, (result.add registers start operand).Holds registers start labels
      (operands ++ [operand]) more := by
  obtain ⟨bytes, ⟨sites, pending⟩, notices⟩ := result
  obtain ⟨hsites, hpending⟩ : sites = labels.sites ∧ pending = uses ++ labels.pending :=
    ⟨hholds.sites, hholds.pending⟩
  subst hsites hpending
  simp only [OperandBytes.add]
  split
  next index hvalue =>
    refine ⟨uses, hholds.addKnown (fun address _ => by rw [hvalue]; rfl) ?_ ?_ (by simp [hvalue])⟩
    · split <;> simp
    · rw [hvalue]
      rintro hempty _ ⟨rfl⟩
      split at hempty
      next => cases hempty
      next hbelow => omega
  next value hvalue =>
    exact ⟨uses, hholds.addKnown (fun address _ => by rw [hvalue]; rfl) id (by simp [hvalue])
      (by simp [hvalue])⟩
  next name hvalue =>
    simp only [LabelTable.reference]
    cases hsite : LabelTable.site? ⟨labels.sites, uses ++ labels.pending⟩ name with
    | some site =>
        have hknown : labels.address? name = some site.address :=
          congrArg (Option.map LabelSite.address) hsite
        refine ⟨uses, hholds.addKnown ?_ id (by simp [hvalue]) ?_⟩
        · intro address hextends
          rw [hvalue, OperandValue.bytes, hextends name _ hknown]
        · rw [hvalue]
          rintro _ ⟨rfl⟩
          rw [hknown]
          rfl
    | none => exact ⟨_, hholds.addOpen hvalue _ _⟩

end OperandBytes.Holds

/-- The operands of an instruction are emitted up to open targets. -/
theorem OperandBytes.exists_holds_foldl (registers start : Nat) (labels : LabelTable)
    (operands : List Operand) :
    ∃ uses, (operands.foldl (OperandBytes.add registers start) ⟨[], labels, []⟩).Holds registers
      start labels operands uses := by
  induction operands using List.reverseRecOn with
  | nil => exact ⟨[], rfl, rfl, by simp, by simp [fill], by simp, by simp⟩
  | append_singleton operands operand ih =>
      obtain ⟨uses, hholds⟩ := ih
      rw [List.foldl_append]
      exact hholds.add operand

/-! ### Instructions -/

/-- An instruction without a notice has been emitted behind the others. -/
theorem Emission.addInstruction_spec {registers : Nat} {emission : Emission} {place : Place}
    {instruction : Instruction}
    (hnotices : (emission.addInstruction registers place instruction).notices = []) :
    emission.notices = [] ∧ ∃ (operands : OperandBytes) (uses : List LabelUse),
      operands.Holds registers emission.builder.code.size emission.labels instruction.operands
        uses ∧
      operands.notices = [] ∧
      (emission.addInstruction registers place instruction).full = emission.full ∧
      (emission.addInstruction registers place instruction).labels = operands.labels ∧
      (emission.addInstruction registers place instruction).builder.code.toList =
        emission.builder.code.toList ++ instruction.opcode.toByte :: operands.bytes ∧
      (emission.addInstruction registers place instruction).builder.code.size ≤
        maxClusterSize := by
  obtain ⟨uses, hholds⟩ := OperandBytes.exists_holds_foldl registers emission.builder.code.size
    emission.labels instruction.operands
  simp only [Emission.addInstruction] at hnotices ⊢
  generalize instruction.operands.foldl _ _ = operands at hnotices hholds ⊢
  obtain ⟨bytes, labels, found⟩ := operands
  simp only at hnotices ⊢
  split at hnotices
  next hfound =>
    simp only [hfound, ↓reduceIte]
    split at hnotices
    next value next hemit =>
      obtain ⟨hcode, hfits⟩ := Builder.code_of_emit hemit
      exact ⟨hnotices, _, uses, hholds, List.isEmpty_iff.mp hfound, rfl, rfl, hcode, hfits⟩
    next => exact absurd hnotices Notice.record_ne_nil
    next => exact absurd hnotices Notice.record_ne_nil
  next hfound =>
    have hempty := (Notice.recordAll_eq_nil_iff.mp hnotices).2
    exact absurd (List.isEmpty_iff.mpr (List.reverse_eq_nil_iff.mp hempty)) hfound

/-- An instruction that is accepted keeps the invariant. -/
theorem Emission.Holds.addInstruction {registers : Nat} {instructions : List Instruction}
    {emission : Emission} (hholds : emission.Holds registers instructions) {place : Place}
    {instruction : Instruction}
    (hnotices : (emission.addInstruction registers place instruction).notices = []) :
    (emission.addInstruction registers place instruction).Holds registers
      (instructions ++ [instruction]) := by
  obtain ⟨-, operands, uses, hoperands, hfound, hfull, hlabels, hcode, hfits⟩ :=
    Emission.addInstruction_spec hnotices
  generalize emission.addInstruction registers place instruction = next at *
  have haddress : next.labels.address? = emission.labels.address? := by
    funext name
    simp only [LabelTable.address?, LabelTable.site?, hlabels, hoperands.sites]
  have hpending : next.labels.pending = uses ++ emission.labels.pending := by
    rw [hlabels, hoperands.pending]
  have hsize : next.builder.code.size =
      emission.builder.code.size + 1 + operands.bytes.length := by
    rw [← Array.length_toList, hcode, List.length_append, Array.length_toList, List.length_cons]
    omega
  refine ⟨hfull.trans hholds.full, hfits, ?_, ?_, ?_, ?_, ?_⟩
  · intro name address hname
    have := hholds.addresses name address (haddress ▸ hname)
    omega
  · rw [hpending, List.forall_mem_append]
    constructor
    · intro use huse
      have := hoperands.positions use huse
      omega
    · intro use huse
      have := hholds.positions use huse
      omega
  · -- the older targets lie in the older bytes, those of this instruction behind its code
    intro address hextends
    rw [haddress] at hextends
    have hbytes := hholds.bytes address hextends
    have hbefore : (encode address instructions ++ [instruction.opcode.toByte]).length =
        emission.builder.code.size + 1 := by
      rw [← hbytes, List.length_append, length_fill, Array.length_toList, List.length_singleton]
    have holder : ∀ use ∈ emission.labels.pending,
        use.position + 2 ≤ emission.builder.code.toList.length := hholds.positions
    rw [hpending, hcode, fill_append, fill_before holder, hbytes, encode_append,
      ← List.singleton_append, ← List.append_assoc,
      hoperands.bytes address hextends _ hbefore]
    simp [encode, Instruction.bytes]
  · rw [List.forall_mem_append]
    exact ⟨hholds.registers, List.forall_mem_singleton.mpr (hoperands.registers hfound)⟩
  · rw [List.forall_mem_append, haddress, hpending]
    constructor
    · intro other hother
      refine (hholds.labels other hother).imp ?_
      intro name hdefined
      exact hdefined.mono fun use => List.mem_append_right uses
    · simp only [List.mem_singleton, forall_eq]
      intro operand hoperand name hname
      exact (hoperands.labels operand hoperand name hname).mono
        fun use => List.mem_append_left _

/-! ### Statements -/

/-- What is wrong with a statement stays wrong. -/
theorem Emission.notices_of_addStatement (registers : Nat) {emission : Emission}
    {statement : Statement}
    (hnotices : (emission.addStatement registers statement).notices = []) :
    emission.notices = [] := by
  simp only [Emission.addStatement] at hnotices
  split at hnotices
  next => exact hnotices
  next =>
    split at hnotices
    next => exact (Emission.addLabel_spec hnotices).1
    next => exact (Emission.addLabel_spec (Emission.addInstruction_spec hnotices).1).1

/-- A statement is looked at if there is room for it and nothing was wrong before. -/
theorem Emission.addStatement_of_unnoticed {emission : Emission} (hfull : emission.full = false)
    (hnotices : emission.notices = []) (registers : Nat) (statement : Statement) :
    emission.addStatement registers statement =
      match statement.instruction with
      | none => emission.addLabel statement.place statement.label
      | some instruction =>
        (emission.addLabel statement.place statement.label).addInstruction registers
          statement.place instruction := by
  rw [Emission.addStatement, Emission.stopped, hfull, hnotices]
  rfl

/-- A statement without a notice defines its label at the end of the program so far and emits its
instruction. -/
theorem Emission.Holds.addStatement {registers : Nat} {statements : List Statement}
    {emission : Emission} {statement : Statement}
    (hholds : emission.Holds registers (instructionsOf statements))
    (haddress : ∀ name, emission.labels.address? name = labelAddress? statements name)
    (hsize : emission.builder.code.size = codeSize (instructionsOf statements))
    (hnotices : (emission.addStatement registers statement).notices = []) :
    (emission.addStatement registers statement).Holds registers
        (instructionsOf (statements ++ [statement])) ∧
      ∀ name, (emission.addStatement registers statement).labels.address? name =
        labelAddress? (statements ++ [statement]) name := by
  have hbefore := Emission.notices_of_addStatement registers hnotices
  rw [Emission.addStatement_of_unnoticed hholds.full hbefore] at hnotices ⊢
  have hinstructions : instructionsOf (statements ++ [statement]) =
      instructionsOf statements ++ statement.instruction.toList := by
    rw [instructionsOf_append]
    cases hinstruction : statement.instruction <;> simp [instructionsOf, hinstruction]
  have hlabelled (hlabel : (emission.addLabel statement.place statement.label).notices = [])
      (name : String) :
      (emission.addLabel statement.place statement.label).labels.address? name =
        labelAddress? (statements ++ [statement]) name := by
    rw [(Emission.addLabel_spec hlabel).2.2.2.2, labelAddress?_append, haddress, hsize]
  rw [hinstructions]
  cases hinstruction : statement.instruction with
  | none =>
      simp only [hinstruction] at hnotices
      simp only [Option.toList, List.append_nil]
      exact ⟨hholds.addLabel hnotices, hlabelled hnotices⟩
  | some instruction =>
      simp only [hinstruction] at hnotices
      obtain ⟨hlabel, operands, uses, hoperands, -, -, hlabels, -⟩ :=
        Emission.addInstruction_spec hnotices
      refine ⟨(hholds.addLabel hlabel).addInstruction hnotices, ?_⟩
      intro name
      simp only [LabelTable.address?, LabelTable.site?, hlabels, hoperands.sites]
      exact hlabelled hlabel name

/-! ### The end of the program -/

/-- Open targets are filled in if their labels are defined; otherwise there is a notice. -/
theorem Emission.resolve_foldr (labels : LabelTable) {builder : Builder} {address : String → Nat}
    (hextends : Extends labels.address? address) (hfits : builder.code.size ≤ maxClusterSize)
    (haddresses : ∀ name known, labels.address? name = some known → known ≤ maxClusterSize)
    {uses : List LabelUse} (hpositions : ∀ use ∈ uses, use.position + 2 ≤ builder.code.size)
    (hnotices : (uses.foldr (fun use done => Emission.resolve labels done use)
      (builder, [])).2 = []) :
    (∀ use ∈ uses, (labels.address? use.name).isSome) ∧
      (uses.foldr (fun use done => Emission.resolve labels done use)
        (builder, [])).1.code.toList = fill address uses builder.code.toList := by
  induction uses with
  | nil => exact ⟨by simp, rfl⟩
  | cons use uses ih =>
      obtain ⟨hfirst, hrest⟩ := List.forall_mem_cons.mp hpositions
      rw [List.foldr_cons] at hnotices ⊢
      have hih := ih hrest
      generalize uses.foldr _ _ = done at hnotices hih ⊢
      obtain ⟨filled, notices⟩ := done
      simp only [Emission.resolve] at hnotices ⊢
      cases hsite : labels.site? use.name with
      | none => simp [hsite] at hnotices
      | some site =>
          have hknown : labels.address? use.name = some site.address := by
            simp [LabelTable.address?, hsite]
          simp only [hsite] at hnotices ⊢
          -- a notice made for one of the others would still be there
          have hothers : notices = [] := by
            split at hnotices
            next => exact hnotices
            next => exact absurd hnotices Notice.record_ne_nil
            next => exact absurd hnotices Notice.record_ne_nil
          obtain ⟨hdefined, hcode⟩ := hih hothers
          have hsize : filled.code.size = builder.code.size := by
            rw [← Array.length_toList, hcode, length_fill, Array.length_toList]
          obtain ⟨next, hpatch, hnext⟩ := Builder.patch_of_le
            (by omega : filled.code.size ≤ maxClusterSize)
            (by omega : use.position + 2 ≤ filled.code.size) (haddresses _ _ hknown)
          rw [hpatch]
          refine ⟨List.forall_mem_cons.mpr ⟨by simp [hknown], hdefined⟩, ?_⟩
          rw [hnext, hcode, fill_cons, hextends _ _ hknown]

/-- The address of a label, zero if it has none. -/
def addressIn (statements : List Statement) (name : String) : Nat :=
  (labelAddress? statements name).getD 0

/-- The bytes are the program of the statements for a machine with the given number of registers. -/
structure IsProgram (registers : Nat) (statements : List Statement) (code : Array UInt8) : Prop where
  wellFormed : ∀ instruction ∈ instructionsOf statements, instruction.WellFormed
  bytes : code.toList = encode (addressIn statements) (instructionsOf statements)
  fits : code.size ≤ maxClusterSize
  registers : ∀ instruction ∈ instructionsOf statements, instruction.UsesRegisters registers
  labels : ∀ instruction ∈ instructionsOf statements,
    instruction.UsesLabels fun name => (labelPoint? statements name).isSome

section Statements

variable (registers : Nat) {statements : List Statement} {builder : Builder}

/-- The statements so far are emitted up to open targets, and their labels have their addresses. -/
theorem Emission.holds_foldl (hbuilder : builder.code = #[])
    (hwell : ∀ instruction ∈ instructionsOf statements, instruction.WellFormed)
    (hnotices : (statements.foldl (Emission.addStatement registers)
      ⟨builder, .empty, [], false⟩).notices = []) :
    (statements.foldl (Emission.addStatement registers) ⟨builder, .empty, [], false⟩).Holds
        registers (instructionsOf statements) ∧
      ∀ name, (statements.foldl (Emission.addStatement registers)
        ⟨builder, .empty, [], false⟩).labels.address? name = labelAddress? statements name := by
  induction statements using List.reverseRecOn with
  | nil =>
      have hnone (name : String) : LabelTable.empty.address? name = none := by
        simp [LabelTable.address?, LabelTable.site?, LabelTable.empty]
      refine ⟨⟨rfl, by simp [hbuilder], ?_, ?_, ?_, ?_, ?_⟩, ?_⟩
      · intro name address hname
        simp [hnone] at hname
      · simp [LabelTable.empty]
      · intro address _
        simp [LabelTable.empty, fill, hbuilder, encode, instructionsOf]
      · simp [instructionsOf]
      · simp [instructionsOf]
      · intro name
        simpa [labelAddress?, labelPoint?] using hnone name
  | append_singleton statements statement ih =>
      rw [List.foldl_append] at hnotices ⊢
      rw [instructionsOf_append, List.forall_mem_append] at hwell
      obtain ⟨hholds, haddress⟩ := ih hwell.1 (Emission.notices_of_addStatement registers hnotices)
      exact hholds.addStatement haddress (hholds.size hwell.1) hnotices

/-- Statements that are emitted without a notice give the program they stand for. -/
theorem isProgram_emitStatements (hbuilder : builder.code = #[])
    (hwell : ∀ instruction ∈ instructionsOf statements, instruction.WellFormed)
    (hnotices : (emitStatements registers statements builder .empty).notices = []) :
    IsProgram registers statements (emitStatements registers statements builder .empty).builder.code
    := by
  have hfold := Emission.holds_foldl registers hbuilder hwell
  simp only [emitStatements] at hnotices ⊢
  generalize statements.foldl _ _ = emission at hnotices hfold ⊢
  split at hnotices
  next hempty =>
    obtain ⟨hholds, haddress⟩ := hfold (List.isEmpty_iff.mp hempty)
    rw [if_pos hempty]
    obtain ⟨builder, labels, notices, full⟩ := emission
    obtain rfl : notices = [] := List.isEmpty_iff.mp hempty
    have hextends : Extends labels.address? (addressIn statements) := by
      intro name known hknown
      rw [addressIn, ← haddress name, hknown]
      rfl
    simp only [Emission.finish, List.foldl_reverse] at hnotices ⊢
    -- the pass over the open targets fills in the final addresses, so nothing stays open
    obtain ⟨hdefined, hcode⟩ := Emission.resolve_foldr ⟨labels.sites, []⟩ hextends hholds.fits
      (fun name known hknown => Nat.le_trans (hholds.addresses name known hknown) hholds.fits)
      hholds.positions hnotices
    rw [hholds.bytes _ hextends] at hcode
    refine ⟨hwell, hcode, ?_, hholds.registers, ?_⟩
    · rw [← Array.length_toList, hcode, ← hholds.bytes _ hextends, length_fill,
        Array.length_toList]
      exact hholds.fits
    · intro instruction hmem
      refine (hholds.labels instruction hmem).imp ?_
      intro name hname
      have hsome : (labels.address? name).isSome := by
        rcases hname with hsome | ⟨use, huse, rfl⟩
        · exact hsome
        · exact hdefined use huse
      rw [haddress name] at hsome
      simpa [labelAddress?] using hsome
  next hnonempty => exact absurd (List.isEmpty_iff.mpr hnotices) hnonempty

end Statements

end Octet
