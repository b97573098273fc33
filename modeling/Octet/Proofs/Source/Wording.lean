import Octet.Proofs.Source.Layout
import Octet.Proofs.Source.Scanning

/-! # The words of a statement

How a statement is worded, and that it is read from its words: registers and values
by their number in decimal, labels by their name, the form of an instruction by the
kinds of its operands.
-/

namespace Octet

/-- An operand as it is written. -/
def OperandValue.word : OperandValue → Word
  | register index => ⟨.identifier, 'r' :: Nat.toDigits 10 index.toNat⟩
  | immediate value => ⟨.integer, Nat.toDigits 10 value.toNat⟩
  | label name => ⟨.identifier, name.toList⟩

/-- A label is not taken for a register. -/
def OperandValue.Plain : OperandValue → Prop
  | label name => registerIndex? name.toList = none
  | register _ | immediate _ => True

def colonWord : Word := ⟨.single ':', [':']⟩

def commaWord : Word := ⟨.single ',', [',']⟩

/-- Operands as they are written behind the name of an instruction. -/
def operandWords : List OperandValue → List Word
  | [] => []
  | value :: values => value.word :: values.flatMap fun value => [commaWord, value.word]

/-- A statement with a label as it is written. -/
def statementWords (label : String) : Option (Opcode × List OperandValue) → List Word
  | none => [⟨.identifier, label.toList⟩, colonWord]
  | some (opcode, values) =>
    ⟨.identifier, label.toList⟩ :: colonWord :: ⟨.identifier, opcode.name.toList⟩ ::
      operandWords values

/-! ### Tokens -/

theorem Spells.eq_nil {tokens : List Token} (hspells : Spells tokens []) : tokens = [] :=
  List.map_eq_nil_iff.mp hspells.1

theorem Spells.exists_cons {tokens : List Token} {word : Word} {words : List Word}
    (hspells : Spells tokens (word :: words)) :
    ∃ token rest, tokens = token :: rest ∧ token.kind = word.kind ∧ token.chars = word.chars ∧
      token.flagged = false ∧ Spells rest words := by
  cases tokens with
  | nil => cases hspells.1
  | cons token rest =>
      obtain ⟨hfirst, hrest⟩ := List.cons.inj hspells.1
      obtain ⟨hflag, hflags⟩ := List.forall_mem_cons.mp hspells.2
      exact ⟨token, rest, rfl, congrArg Word.kind hfirst, congrArg Word.chars hfirst, hflag,
        hrest, hflags⟩

/-! ### Operands -/

/-- The name of a register is taken for that register. -/
theorem registerIndex?_toDigits (number : Nat) :
    registerIndex? ('r' :: Nat.toDigits 10 number) = some number := by
  obtain ⟨first, rest, hdigits, -⟩ := exists_toDigits number
  have hall : (first :: rest).all Char.isDigit = true := by
    rw [List.all_eq_true, ← hdigits]
    exact fun c => isDigit_of_mem_decimal
  have hvalue : Nat.ofDigitChars 10 (first :: rest) 0 = number := by
    rw [← hdigits, Nat.ofDigitChars_ten_toDigits]
  rw [Nat.ofDigitChars_eq_foldl] at hvalue
  rw [hdigits]
  simp only [registerIndex?, hall, true_or, and_self, ↓reduceIte, Nat.mul_comm _ 10, hvalue]

/-- The word of an operand is read as that operand. -/
theorem operandOf_of_word {token : Token} {value : OperandValue} (hplain : value.Plain)
    (hkind : token.kind = value.word.kind) (hchars : token.chars = value.word.chars)
    (hflag : token.flagged = false) : operandOf token = .ok ⟨value, token.place⟩ := by
  cases value with
  | register index =>
      have hlt : index.toNat < 256 := index.toNat_lt
      have hbyte : index.toNat.toUInt8 = index := UInt8.ofNat_toNat
      simp only [OperandValue.word] at hkind hchars
      simp only [operandOf, hflag, hkind, hchars, registerIndex?_toDigits, hlt, hbyte,
        Bool.false_eq_true, ↓reduceIte]
  | immediate number =>
      have hle : number.toNat ≤ 255 := by
        have := number.toNat_lt
        omega
      have hbyte : number.toNat.toUInt8 = number := UInt8.ofNat_toNat
      simp only [OperandValue.word] at hkind hchars
      simp only [operandOf, hflag, hkind, hchars, readNumeral_toDigits hle, hbyte,
        Bool.false_eq_true, ↓reduceIte]
  | label name =>
      have hname : registerIndex? name.toList = none := hplain
      simp only [OperandValue.word] at hkind hchars
      simp only [operandOf, hflag, hkind, hchars, hname, Token.string, String.ofList_toList,
        Bool.false_eq_true, ↓reduceIte]

/-- Operands are read from their words, those read before being kept. -/
theorem exists_operandsFrom {values : List OperandValue} (hplain : ∀ value ∈ values, value.Plain)
    {tokens : List Token} (hspells : Spells tokens (operandWords values)) (place : Place)
    (done : List Operand) :
    ∃ operands, operands.map Operand.value = values ∧
      operandsFrom place done tokens = .ok (done.reverse ++ operands) := by
  induction values generalizing tokens done with
  | nil =>
      rw [hspells.eq_nil]
      exact ⟨[], rfl, by simp [operandsFrom]⟩
  | cons value values ih =>
      obtain ⟨hfirst, hothers⟩ := List.forall_mem_cons.mp hplain
      obtain ⟨token, rest, rfl, hkind, hchars, hflag, hrest⟩ := hspells.exists_cons
      have hoperand := operandOf_of_word hfirst hkind hchars hflag
      cases values with
      | nil =>
          rw [hrest.eq_nil]
          exact ⟨[⟨value, token.place⟩], rfl, by simp [operandsFrom, hoperand]⟩
      | cons next values =>
          obtain ⟨comma, rest, rfl, hcomma, -, -, hrest⟩ := hrest.exists_cons
          obtain ⟨operands, hvalues, hread⟩ := ih hothers hrest (⟨value, token.place⟩ :: done)
          have hsome : rest.isEmpty = false := by
            obtain ⟨_, _, rfl, -⟩ := hrest.exists_cons
            rfl
          refine ⟨⟨value, token.place⟩ :: operands, by rw [List.map_cons, hvalues], ?_⟩
          simp only [operandsFrom, hoperand, hcomma, commaWord, ne_eq, not_true_eq_false, hsome,
            Bool.false_eq_true, ↓reduceIte, hread, List.reverse_cons, List.append_assoc,
            List.singleton_append]

/-! ### Instructions -/

theorem Opcode.mem_all (opcode : Opcode) : opcode ∈ Opcode.all := by
  have hmem : opcode ∈ Opcode.table := Array.mem_of_getElem? (ofByte?_toByte opcode)
  exact List.mem_toArray.mp hmem

/-- The name of an instruction is a word of its own, in lower case. -/
theorem Opcode.exists_name (opcode : Opcode) :
    ∃ first tail, opcode.name.toList = first :: tail ∧ first.isAlpha = true ∧
      (∀ c ∈ tail, c.isAlphanum = true) ∧ (first :: tail).map asciiLower = first :: tail := by
  have hall : (Opcode.all.all fun other => !other.name.toList.isEmpty &&
      other.name.toList.all fun c => c.isAlpha && asciiLower c == c) = true := by
    decide +kernel
  have hhere := List.all_eq_true.mp hall opcode opcode.mem_all
  simp only [Bool.and_eq_true, Bool.not_eq_true', List.isEmpty_eq_false_iff, List.all_eq_true,
    beq_iff_eq] at hhere
  obtain ⟨hsome, hchars⟩ := hhere
  obtain ⟨first, tail, hname⟩ := List.exists_cons_of_ne_nil hsome
  rw [hname] at hchars
  obtain ⟨hfirst, htail⟩ := List.forall_mem_cons.mp hchars
  refine ⟨first, tail, hname, hfirst.1, fun c hc => isAlphanum_of_isAlpha (htail c hc).1, ?_⟩
  calc (first :: tail).map asciiLower
      _ = (first :: tail).map id := List.map_congr_left fun c hc => (hchars c hc).2
      _ = first :: tail := List.map_id _

/-- Opcodes that share a name differ in the kinds of their operands. -/
theorem find?_opcodesNamed (opcode : Opcode) :
    (opcodesNamed opcode.name).find? (fun other => other.operands == opcode.operands) =
      some opcode := by
  have hall : ∀ named ∈ Opcode.all, (opcodesNamed named.name).find?
      (fun other => other.operands == named.operands) = some named := by
    decide +kernel
  exact hall opcode opcode.mem_all

/-- The words of an instruction are read as that instruction. -/
theorem exists_instructionOf {opcode : Opcode} {values : List OperandValue}
    (hkinds : opcode.operands = values.map OperandValue.kind)
    (hplain : ∀ value ∈ values, value.Plain) {name : Token} {tokens : List Token}
    (hname : name.kind = .identifier) (hchars : name.chars = opcode.name.toList)
    (hspells : Spells tokens (operandWords values)) :
    ∃ operands, operands.map Operand.value = values ∧
      instructionOf name tokens = .ok ⟨opcode, operands⟩ := by
  obtain ⟨operands, hvalues, hread⟩ := exists_operandsFrom hplain hspells name.place []
  have hfind := find?_opcodesNamed opcode
  have hsome : (opcodesNamed opcode.name).isEmpty = false := by
    rw [List.isEmpty_eq_false_iff_exists_mem]
    exact ⟨opcode, List.mem_of_find?_eq_some hfind⟩
  have hsame : opcode.operands = operands.map fun operand => operand.value.kind := by
    rw [hkinds, ← hvalues, List.map_map]
    rfl
  have hlower : opcode.name.toList.map asciiLower = opcode.name.toList := by
    obtain ⟨_, _, hchars, -, -, hlower⟩ := opcode.exists_name
    rw [hchars, hlower]
  refine ⟨operands, hvalues, ?_⟩
  rw [hsame] at hfind
  simp only [instructionOf, hname, ne_eq, not_true_eq_false, ↓reduceIte, hchars, hlower,
    String.ofList_toList, hsome, Bool.false_eq_true, hread, List.reverse_nil, List.nil_append,
    hfind]

/-- A statement is read from its words. -/
theorem exists_statementOf {label : String} (hlabel : registerIndex? label.toList = none)
    {instruction : Option (Opcode × List OperandValue)}
    (hkinds : ∀ opcode values, instruction = some (opcode, values) →
      opcode.operands = values.map OperandValue.kind ∧ ∀ value ∈ values, value.Plain)
    {tokens : List Token} (hspells : Spells tokens (statementWords label instruction)) :
    ∃ statement, statementOf tokens = .ok (some statement) ∧ statement.label = some label ∧
      statement.instruction.map (fun found => (found.opcode, found.operands.map Operand.value)) =
        instruction := by
  have hlabelled {first second : Token} {rest : List Token} (hkind : first.kind = .identifier)
      (hchars : first.chars = label.toList) (hcolon : second.kind = .single ':') :
      statementOf (first :: second :: rest) =
        (labelledStatement first.place (some label) rest).map some := by
    simp only [statementOf, hkind, hcolon, and_self, ↓reduceIte, hchars, hlabel, Option.isSome_none,
      Bool.false_eq_true, Token.string, String.ofList_toList]
  cases instruction with
  | none =>
      obtain ⟨first, _, rfl, hkind, hchars, -, hrest⟩ := hspells.exists_cons
      obtain ⟨second, rest, rfl, hcolon, -, -, hrest⟩ := hrest.exists_cons
      rw [hlabelled hkind hchars hcolon, hrest.eq_nil]
      exact ⟨_, rfl, rfl, rfl⟩
  | some instruction =>
      obtain ⟨opcode, values⟩ := instruction
      obtain ⟨hkinds, hplain⟩ := hkinds opcode values rfl
      obtain ⟨first, _, rfl, hkind, hchars, -, hrest⟩ := hspells.exists_cons
      obtain ⟨second, _, rfl, hcolon, -, -, hrest⟩ := hrest.exists_cons
      obtain ⟨name, rest, rfl, hname, hnamed, -, hrest⟩ := hrest.exists_cons
      obtain ⟨operands, hvalues, hread⟩ := exists_instructionOf hkinds hplain hname hnamed hrest
      rw [hlabelled hkind hchars hcolon]
      simp only [labelledStatement, hread]
      exact ⟨_, rfl, rfl, by simp [hvalues]⟩

end Octet
