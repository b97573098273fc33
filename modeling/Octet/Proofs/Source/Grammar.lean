import Octet.Proofs.Source.Literals
import Octet.Proofs.Text.Case

/-! # The grammar of lines

A line holds nothing, or a label, an instruction or both. The grammar says so about the
tokens of a line, with what each of them stands for: registers by their number in decimal,
values by the literals for them, labels by any other name, and instructions by the names
of their opcodes in any case. A source that can be read is parsed without a notice exactly
if all of its lines are of this form, and its statements are then those of the grammar.
-/

namespace Octet

/-! ### Operands -/

/-- A name that is kept for the register with an index. -/
inductive RegisterName : List Char → Nat → Prop
  | intro {letter : Char} {digits : List Char} {index : Nat} (hletter : letter = 'r' ∨ letter = 'R')
      (hsome : digits ≠ []) (hdigits : Digits 10 digits.length digits index) :
      RegisterName (letter :: digits) index

theorem isDigit_ten_iff {c : Char} {value : Nat} :
    IsDigit 10 c value ↔ c.isDigit = true ∧ c.toNat - '0'.toNat = value := by
  rw [isDigit_iff (by decide)]
  constructor
  · rintro ⟨hvalue, hlt⟩
    unfold digitValue? at hvalue
    split at hvalue
    next hdigit => exact ⟨hdigit, Option.some.inj hvalue⟩
    next =>
      -- letters stand for ten and more
      split at hvalue
      next =>
        have := Option.some.inj hvalue
        omega
      next =>
        split at hvalue
        next =>
          have := Option.some.inj hvalue
          omega
        next => cases hvalue
  · rintro ⟨hdigit, rfl⟩
    exact digitValue?_of_isDigit hdigit

theorem forall₂_isDigit_ten_iff {digits : List Char} {values : List Nat} :
    List.Forall₂ (IsDigit 10) digits values ↔ (∀ c ∈ digits, c.isDigit = true) ∧
      digits.map (fun c => c.toNat - '0'.toNat) = values := by
  induction digits generalizing values with
  | nil => cases values <;> simp
  | cons c digits ih =>
      cases values with
      | nil => simp
      | cons value values =>
          rw [List.forall₂_cons, isDigit_ten_iff, ih, List.forall_mem_cons, List.map_cons,
            List.cons.injEq, and_and_and_comm]

/-- The value of decimal digits is what adding them up gives. -/
theorem digits_ten_iff {digits : List Char} {number : Nat} :
    Digits 10 digits.length digits number ↔ (∀ c ∈ digits, c.isDigit = true) ∧
      number = digits.foldl (fun value c => value * 10 + (c.toNat - '0'.toNat)) 0 := by
  simp only [Digits, true_and, positional_eq_foldl, forall₂_isDigit_ten_iff]
  constructor
  · rintro ⟨values, ⟨hdigits, rfl⟩, rfl⟩
    exact ⟨hdigits, List.foldl_map⟩
  · rintro ⟨hdigits, rfl⟩
    exact ⟨_, ⟨hdigits, rfl⟩, List.foldl_map.symm⟩

/-- A text is taken for a register exactly if it has the form of a register name. -/
theorem registerIndex?_eq_some_iff {chars : List Char} {index : Nat} :
    registerIndex? chars = some index ↔ RegisterName chars index := by
  constructor
  · intro hindex
    unfold registerIndex? at hindex
    split at hindex
    next first digit digits =>
      obtain ⟨⟨hletter, hdigits⟩, hvalue⟩ := Option.ite_none_right_eq_some.mp hindex
      refine .intro hletter (List.cons_ne_nil _ _) (digits_ten_iff.mpr ⟨?_, ?_⟩)
      · exact List.all_eq_true.mp hdigits
      · exact (Option.some.inj hvalue).symm
    next => cases hindex
  · rintro ⟨hletter, hsome, hdigits⟩
    obtain ⟨hall, rfl⟩ := digits_ten_iff.mp hdigits
    obtain ⟨digit, digits, rfl⟩ := List.exists_cons_of_ne_nil hsome
    exact if_pos ⟨hletter, List.all_eq_true.mpr hall⟩

theorem registerIndex?_eq_none_iff {chars : List Char} :
    registerIndex? chars = none ↔ ∀ index, ¬ RegisterName chars index := by
  simp only [← registerIndex?_eq_some_iff, Option.eq_none_iff_forall_ne_some, ne_eq]

/-- What a token stands for as an operand. -/
inductive Token.Denotes (token : Token) : OperandValue → Prop
  | register {index : Nat} (hkind : token.kind = .identifier)
      (hname : RegisterName token.chars index) (hlt : index < 256) :
      Denotes token (.register index.toUInt8)
  | integer {value : Nat} (hkind : token.kind = .integer)
      (hliteral : IntegerLiteral token.chars value) (hle : value ≤ 255) :
      Denotes token (.immediate value.toUInt8)
  | character {body : List Char} {code : Nat} (hkind : token.kind = .character)
      (hchars : token.chars = '\'' :: (body ++ ['\''])) (hread : ReadAs body code)
      (hle : code ≤ 255) : Denotes token (.immediate code.toUInt8)
  | label (hkind : token.kind = .identifier) (hname : ∀ index, ¬ RegisterName token.chars index) :
      Denotes token (.label token.string)

/-- The token was read without a notice, and if it is an integer then a literal of one. -/
def Token.Sound (token : Token) : Prop :=
  token.flagged = false ∧ (token.kind = .integer → ∃ value, IntegerLiteral token.chars value)

theorem Token.byteOperand_eq_ok_iff {token : Token} {number : Nat} {operand : Operand} :
    token.byteOperand number = .ok operand ↔
      number ≤ 255 ∧ operand = ⟨.immediate number.toUInt8, token.place⟩ := by
  rw [byteOperand]
  split
  next hle => simp [hle, eq_comm]
  next hle => simp [hle]

/-- A token is an operand exactly if it denotes a value, and it keeps its place. -/
theorem operandOf_eq_ok_iff {token : Token} (hsound : token.Sound) {operand : Operand} :
    operandOf token = .ok operand ↔ token.Denotes operand.value ∧ operand.place = token.place := by
  obtain ⟨hflag, hinteger⟩ := hsound
  constructor
  · intro hoperand
    cases hkind : token.kind with
    | identifier =>
        simp only [operandOf, hflag, Bool.false_eq_true, ↓reduceIte, hkind] at hoperand
        split at hoperand
        next index hindex =>
          split at hoperand
          next hlt =>
            obtain rfl := Except.ok.inj hoperand
            exact ⟨.register hkind (registerIndex?_eq_some_iff.mp hindex) hlt, rfl⟩
          next => cases hoperand
        next hindex =>
          obtain rfl := Except.ok.inj hoperand
          exact ⟨.label hkind (registerIndex?_eq_none_iff.mp hindex), rfl⟩
    | integer =>
        obtain ⟨value, hliteral⟩ := hinteger hkind
        rw [operandOf_of_integerLiteral hkind hflag hliteral, Token.byteOperand_eq_ok_iff]
          at hoperand
        obtain ⟨hle, rfl⟩ := hoperand
        exact ⟨.integer hkind hliteral hle, rfl⟩
    | character =>
        cases hcode : characterLiteral? token.chars with
        | none => simp [operandOf, hflag, hkind, hcode] at hoperand
        | some code =>
            obtain ⟨body, hchars, hread⟩ := characterLiteral?_eq_some_iff.mp hcode
            rw [operandOf_of_readAs hkind hflag hchars hread, Token.byteOperand_eq_ok_iff]
              at hoperand
            obtain ⟨hle, rfl⟩ := hoperand
            exact ⟨.character hkind hchars hread hle, rfl⟩
    | single c =>
        simp only [operandOf, hflag, Bool.false_eq_true, ↓reduceIte, hkind] at hoperand
        split at hoperand <;> cases hoperand
  · obtain ⟨value, place⟩ := operand
    rintro ⟨hdenotes, hplace⟩
    obtain rfl : place = token.place := hplace
    cases hdenotes with
    | register hkind hname hlt =>
        simp only [operandOf, hflag, Bool.false_eq_true, ↓reduceIte, hkind,
          registerIndex?_eq_some_iff.mpr hname, hlt]
    | integer hkind hliteral hle =>
        rw [operandOf_of_integerLiteral hkind hflag hliteral]
        exact if_pos hle
    | character hkind hchars hread hle =>
        rw [operandOf_of_readAs hkind hflag hchars hread]
        exact if_pos hle
    | label hkind hname =>
        simp only [operandOf, hflag, Bool.false_eq_true, ↓reduceIte, hkind,
          registerIndex?_eq_none_iff.mpr hname]

/-- One operand or more, with commas between them. -/
inductive OperandList : List Token → List Operand → Prop
  | last {token : Token} {value : OperandValue} (hvalue : token.Denotes value) :
      OperandList [token] [⟨value, token.place⟩]
  | next {token comma : Token} {value : OperandValue} {rest : List Token} {operands : List Operand}
      (hvalue : token.Denotes value) (hcomma : comma.kind = .single ',')
      (hrest : OperandList rest operands) :
      OperandList (token :: comma :: rest) (⟨value, token.place⟩ :: operands)

/-- The operands behind the name of an instruction. -/
def Operands (tokens : List Token) (operands : List Operand) : Prop :=
  tokens = [] ∧ operands = [] ∨ OperandList tokens operands

theorem operands_nil_iff {operands : List Operand} : Operands [] operands ↔ operands = [] := by
  refine ⟨?_, fun hnone => .inl ⟨rfl, hnone⟩⟩
  rintro (⟨-, hnone⟩ | hlist)
  · exact hnone
  · cases hlist

/-- After an operand comes nothing, or a comma and more operands. -/
theorem operands_cons_iff {first : Token} (hsound : first.Sound) {rest : List Token}
    {operands : List Operand} :
    Operands (first :: rest) operands ↔ ∃ operand, operandOf first = .ok operand ∧
      (rest = [] ∧ operands = [operand] ∨
        ∃ comma tail others, rest = comma :: tail ∧ comma.kind = .single ',' ∧ tail ≠ [] ∧
          Operands tail others ∧ operands = operand :: others) := by
  simp only [operandOf_eq_ok_iff hsound]
  constructor
  · rintro (⟨hnil, -⟩ | hlist)
    · cases hnil
    · cases hlist with
      | last hvalue => exact ⟨_, ⟨hvalue, rfl⟩, .inl ⟨rfl, rfl⟩⟩
      | next hvalue hcomma hrest =>
          refine ⟨_, ⟨hvalue, rfl⟩, .inr ⟨_, _, _, rfl, hcomma, ?_, .inr hrest, rfl⟩⟩
          cases hrest <;> exact List.cons_ne_nil _ _
  · rintro ⟨⟨value, place⟩, ⟨hvalue, hplace⟩, hrest⟩
    obtain rfl : place = first.place := hplace
    rcases hrest with ⟨rfl, rfl⟩ | ⟨comma, tail, others, rfl, hcomma, hsome, hothers, rfl⟩
    · exact .inr (.last hvalue)
    · rcases hothers with ⟨hnil, -⟩ | hlist
      · exact absurd hnil hsome
      · exact .inr (.next hvalue hcomma hlist)

/-- The operands of an instruction are read exactly if they have the form of operands. -/
theorem operandsFrom_eq_ok_iff {place : Place} {done operands : List Operand}
    {tokens : List Token} (hsound : ∀ token ∈ tokens, token.Sound) :
    operandsFrom place done tokens = .ok operands ↔
      ∃ read, Operands tokens read ∧ operands = done.reverse ++ read := by
  fun_induction operandsFrom place done tokens with
  | case1 done => simp [operands_nil_iff, eq_comm]
  | case2 done first rest notices herror =>
      simp [operands_cons_iff (hsound first List.mem_cons_self), herror]
  | case3 done first operand hoperand =>
      simp [operands_cons_iff (hsound first List.mem_cons_self), hoperand, eq_comm]
  | case4 done first operand hoperand comma rest hcomma =>
      simp [operands_cons_iff (hsound first List.mem_cons_self), hoperand, hcomma]
  | case5 done first operand hoperand comma rest hcomma hempty =>
      obtain rfl := List.isEmpty_iff.mp hempty
      simp [operands_cons_iff (hsound first List.mem_cons_self), hoperand]
  | case6 done first operand hoperand comma rest hcomma hsome ih =>
      rw [ih fun token hmem => hsound token (by simp [hmem])]
      have hcomma : comma.kind = .single ',' := by simpa using hcomma
      have hsome : rest ≠ [] := by simpa using hsome
      simp only [operands_cons_iff (hsound first List.mem_cons_self), hoperand, Except.ok.injEq]
      constructor
      · rintro ⟨read, hread, rfl⟩
        refine ⟨operand :: read, ⟨operand, rfl, .inr ?_⟩, by simp⟩
        exact ⟨comma, rest, read, rfl, hcomma, hsome, hread, rfl⟩
      · rintro ⟨_, ⟨_, rfl, ⟨hnil, -⟩ | ⟨_, _, read, hrest, -, -, hread, rfl⟩⟩, rfl⟩
        · cases hnil
        · obtain ⟨rfl, rfl⟩ := List.cons.inj hrest
          exact ⟨read, hread, by simp⟩

/-! ### Instructions -/

/-- The names of an opcode. -/
def Opcode.spellings (opcode : Opcode) : List String :=
  opcode.name :: (aliases.filter fun entry => entry.2 == opcode.name).map Prod.fst

/-- The opcodes of a name are the ones that are spelled so. -/
theorem mem_opcodesNamed_iff {name : String} {opcode : Opcode} :
    opcode ∈ opcodesNamed name ↔ name ∈ opcode.spellings := by
  have hnamed : opcode ∈ opcodesNamed name ↔ opcode.name = (aliases.lookup name).getD name := by
    simp [opcodesNamed, opcode.mem_all]
  rw [hnamed]
  by_cases halias : name ∈ aliases.map Prod.fst
  · -- an alias is the name of no opcode
    have hall : ∀ other ∈ Opcode.all, ∀ short ∈ aliases.map Prod.fst,
        (other.name = (aliases.lookup short).getD short ↔ short ∈ other.spellings) := by
      decide +kernel
    exact hall opcode opcode.mem_all name halias
  · have hlookup : aliases.lookup name = none := by
      rw [List.lookup_eq_none_iff]
      intro entry hentry
      have hother : name ≠ entry.1 := by
        rintro rfl
        exact halias (List.mem_map_of_mem hentry)
      simpa using hother
    have hnone : name ∉ (aliases.filter fun entry => entry.2 == opcode.name).map Prod.fst :=
      fun hmem => halias (List.map_subset Prod.fst (List.filter_subset_self _) hmem)
    rw [hlookup, Option.getD_none, Opcode.spellings, List.mem_cons, or_iff_left hnone, eq_comm]

/-- Opcodes of one name and with operands of the same kinds are the same. -/
theorem Opcode.eq_of_spelling {name : String} {opcode other : Opcode}
    (hopcode : name ∈ opcode.spellings) (hother : name ∈ other.spellings)
    (hoperands : opcode.operands = other.operands) : opcode = other := by
  rw [← mem_opcodesNamed_iff, opcodesNamed, List.mem_filter, beq_iff_eq] at hopcode hother
  have hfound := find?_opcodesNamed opcode
  rw [hopcode.2, ← hother.2, hoperands, find?_opcodesNamed other] at hfound
  exact (Option.some.inj hfound).symm

/-- A name and the kinds of its operands select the one opcode that has both. -/
theorem find?_opcodesNamed_eq_some_iff {name : String} {kinds : List OperandKind}
    {opcode : Opcode} :
    ((opcodesNamed name).find? fun other => other.operands == kinds) = some opcode ↔
      name ∈ opcode.spellings ∧ opcode.operands = kinds := by
  have hfound {other : Opcode}
      (hother : ((opcodesNamed name).find? fun other => other.operands == kinds) = some other) :
      name ∈ other.spellings ∧ other.operands = kinds :=
    ⟨mem_opcodesNamed_iff.mp (List.mem_of_find?_eq_some hother),
      by simpa using List.find?_some hother⟩
  refine ⟨hfound, ?_⟩
  rintro ⟨hname, hkinds⟩
  cases hfind : (opcodesNamed name).find? fun other => other.operands == kinds with
  | none =>
      have hnone := List.find?_eq_none.mp hfind opcode (mem_opcodesNamed_iff.mpr hname)
      simp [hkinds] at hnone
  | some other =>
      obtain ⟨hsame, hothers⟩ := hfound hfind
      rw [Opcode.eq_of_spelling hname hsame (hkinds.trans hothers.symm)]

theorem ascii_of_mem_spellings {opcode : Opcode} {name : String} (hname : name ∈ opcode.spellings) :
    ∀ c ∈ name.toList, c.toNat < 128 := by
  have hall : ∀ other ∈ Opcode.all, ∀ short ∈ other.spellings,
      short.toList.all (fun c => c.toNat < 128) = true := by
    decide +kernel
  simpa using hall opcode opcode.mem_all name hname

/-- The name of an instruction and the tokens behind it. -/
structure InstructionForm (name : Token) (rest : List Token) (instruction : Instruction) :
    Prop where
  kind : name.kind = .identifier
  mnemonic : String.ofList (name.chars.map lowerCase) ∈ instruction.opcode.spellings
  operands : Operands rest instruction.operands
  form : instruction.opcode.operands = instruction.operands.map fun operand => operand.value.kind

/-- For the names of opcodes it does not matter which letters beyond plain text are put in lower
case. -/
theorem mem_spellings_lowerCase_iff {chars : List Char} {opcode : Opcode} :
    String.ofList (chars.map lowerCase) ∈ opcode.spellings ↔
      String.ofList (chars.map asciiLower) ∈ opcode.spellings := by
  have hsame {name : String} (hname : name ∈ opcode.spellings) :
      String.ofList (chars.map lowerCase) = name ↔ String.ofList (chars.map asciiLower) = name := by
    rw [← String.toList_inj, ← String.toList_inj, String.toList_ofList, String.toList_ofList,
      map_lowerCase_eq_iff (ascii_of_mem_spellings hname)]
  exact ⟨fun hmem => (hsame hmem).mp rfl ▸ hmem, fun hmem => (hsame hmem).mpr rfl ▸ hmem⟩

/-- Tokens are read as an instruction exactly if they have its form. -/
theorem instructionOf_eq_ok_iff {name : Token} {rest : List Token} {instruction : Instruction}
    (hsound : ∀ token ∈ rest, token.Sound) :
    instructionOf name rest = .ok instruction ↔ InstructionForm name rest instruction := by
  constructor
  · intro hinstruction
    simp only [instructionOf] at hinstruction
    split at hinstruction
    next => cases hinstruction
    next hkind =>
      split at hinstruction
      next => cases hinstruction
      next =>
        split at hinstruction
        next => cases hinstruction
        next operands hoperands =>
          split at hinstruction
          next opcode hopcode =>
            obtain rfl := Except.ok.inj hinstruction
            obtain ⟨hname, hkinds⟩ := find?_opcodesNamed_eq_some_iff.mp hopcode
            obtain ⟨read, hread, rfl⟩ := (operandsFrom_eq_ok_iff hsound).mp hoperands
            exact ⟨not_not.mp hkind, mem_spellings_lowerCase_iff.mpr hname, hread, hkinds⟩
          next => cases hinstruction
  · rintro ⟨hkind, hname, hoperands, hkinds⟩
    have hread : operandsFrom name.place [] rest = .ok instruction.operands :=
      (operandsFrom_eq_ok_iff hsound).mpr ⟨_, hoperands, rfl⟩
    have hfind := find?_opcodesNamed_eq_some_iff.mpr ⟨mem_spellings_lowerCase_iff.mp hname, hkinds⟩
    have hsome : (opcodesNamed (String.ofList (name.chars.map asciiLower))).isEmpty = false := by
      rw [List.isEmpty_eq_false_iff_exists_mem]
      exact ⟨_, List.mem_of_find?_eq_some hfind⟩
    simp only [instructionOf, hkind, ne_eq, not_true_eq_false, ↓reduceIte, hsome,
      Bool.false_eq_true, hread, hfind]

/-! ### Lines -/

/-- A label and a colon, or nothing. -/
inductive LabelPart : List Token → Option String → Prop
  | absent : LabelPart [] none
  | label {name colon : Token} (hkind : name.kind = .identifier)
      (hname : ∀ index, ¬ RegisterName name.chars index) (hcolon : colon.kind = .single ':') :
      LabelPart [name, colon] (some name.string)

/-- An instruction, or nothing. -/
inductive InstructionPart : List Token → Option Instruction → Prop
  | absent : InstructionPart [] none
  | instruction {name : Token} {rest : List Token} {instruction : Instruction}
      (hform : InstructionForm name rest instruction) :
      InstructionPart (name :: rest) (some instruction)

/-- The tokens of a line are a statement. It stands where its instruction starts, or its label if it
has no instruction. -/
def LineForm (tokens : List Token) (statement : Statement) : Prop :=
  ∃ front back, tokens = front ++ back ∧ LabelPart front statement.label ∧
    InstructionPart back statement.instruction ∧
    (back ++ front).head?.map Token.place = some statement.place

/-- The rest of a line is read exactly if it is empty or has the form of an instruction. -/
theorem labelledStatement_eq_ok_iff {place : Place} {label : Option String} {tokens : List Token}
    {statement : Statement} (hsound : ∀ token ∈ tokens, token.Sound) :
    labelledStatement place label tokens = .ok statement ↔
      statement.label = label ∧ InstructionPart tokens statement.instruction ∧
        statement.place = (tokens.head?.map Token.place).getD place := by
  cases tokens with
  | nil =>
      constructor
      · intro hstatement
        obtain rfl := Except.ok.inj hstatement
        exact ⟨rfl, .absent, rfl⟩
      · obtain ⟨spot, name, instruction⟩ := statement
        rintro ⟨hlabel, hpart, hplace⟩
        cases hpart
        obtain rfl : name = label := hlabel
        obtain rfl : spot = place := hplace
        rfl
  | cons name rest =>
      have hform {instruction : Instruction} :
          instructionOf name rest = .ok instruction ↔ InstructionForm name rest instruction :=
        instructionOf_eq_ok_iff (List.forall_mem_cons.mp hsound).2
      constructor
      · intro hstatement
        simp only [labelledStatement] at hstatement
        split at hstatement
        next => cases hstatement
        next instruction hinstruction =>
          obtain rfl := Except.ok.inj hstatement
          exact ⟨rfl, .instruction (hform.mp hinstruction), rfl⟩
      · obtain ⟨spot, text, instruction⟩ := statement
        rintro ⟨hlabel, hpart, hplace⟩
        obtain rfl : text = label := hlabel
        obtain rfl : spot = name.place := hplace
        cases hpart with
        | instruction hpart => simp only [labelledStatement, hform.mpr hpart]

theorem Token.Denotes.ne_single {token : Token} {value : OperandValue}
    (hvalue : token.Denotes value) (c : Char) : token.kind ≠ .single c := by
  cases hvalue <;> simp [*]

/-- Behind the name of an instruction there is no colon. -/
theorem Operands.head_ne_colon {tokens : List Token} {operands : List Operand}
    (hoperands : Operands tokens operands) : ∀ token ∈ tokens.head?, token.kind ≠ .single ':' := by
  rcases hoperands with ⟨rfl, -⟩ | hlist
  · simp
  · cases hlist with
    | last hvalue => simpa using hvalue.ne_single ':'
    | next hvalue => simpa using hvalue.ne_single ':'

/-- A name with a colon behind it is a label, unless it is a register. -/
theorem statementOf_of_label {name colon : Token} (hkind : name.kind = .identifier)
    (hcolon : colon.kind = .single ':') (hname : ∀ index, ¬ RegisterName name.chars index)
    (rest : List Token) :
    statementOf (name :: colon :: rest) =
      (labelledStatement name.place (some name.string) rest).map some := by
  simp only [statementOf, hkind, hcolon, and_self, ↓reduceIte, registerIndex?_eq_none_iff.mpr hname,
    Option.isSome_none, Bool.false_eq_true]

theorem statementOf_of_no_label {name : Token} {rest : List Token}
    (hcolon : ∀ token ∈ rest.head?, name.kind = .identifier → token.kind ≠ .single ':') :
    statementOf (name :: rest) = (labelledStatement name.place none (name :: rest)).map some := by
  cases rest with
  | nil => rfl
  | cons second rest =>
      have hnot : ¬ (name.kind = .identifier ∧ second.kind = .single ':') :=
        fun hlabel => hcolon second rfl hlabel.1 hlabel.2
      simp only [statementOf, if_neg hnot]

theorem map_some_eq_ok_iff {ε α : Type} {result : Except ε α} {value : α} :
    result.map some = .ok (some value) ↔ result = .ok value := by
  simp only [map_eq_ok_iff, Option.some.injEq, exists_eq_right]

/-- The tokens of a line are read as a statement exactly if they have the form of a line. -/
theorem statementOf_eq_ok_iff {tokens : List Token} {statement : Statement}
    (hsound : ∀ token ∈ tokens, token.Sound) :
    statementOf tokens = .ok (some statement) ↔ LineForm tokens statement := by
  -- a name before a colon is taken for a label, and no instruction has a colon behind its name
  constructor
  · intro hstatement
    cases tokens with
    | nil => cases hstatement
    | cons first rest =>
        by_cases hcolon : ∀ token ∈ rest.head?, first.kind = .identifier → token.kind ≠ .single ':'
        · rw [statementOf_of_no_label hcolon, map_some_eq_ok_iff,
            labelledStatement_eq_ok_iff hsound] at hstatement
          obtain ⟨hlabel, hpart, hplace⟩ := hstatement
          refine ⟨[], first :: rest, rfl, ?_, hpart, by simp [hplace]⟩
          rw [hlabel]
          exact .absent
        · push Not at hcolon
          obtain ⟨colon, hhead, hkind, hcolon⟩ := hcolon
          obtain ⟨back, rfl⟩ := List.head?_eq_some_iff.mp hhead
          -- the name of a register is refused as a label, and it is no instruction either
          cases hregister : registerIndex? first.chars with
          | some index => simp [statementOf, hkind, hcolon, hregister] at hstatement
          | none =>
              have hname := registerIndex?_eq_none_iff.mp hregister
              have hback : ∀ token ∈ back, token.Sound :=
                fun token hmem => hsound token (by simp [hmem])
              rw [statementOf_of_label hkind hcolon hname, map_some_eq_ok_iff,
                labelledStatement_eq_ok_iff hback] at hstatement
              obtain ⟨hlabel, hpart, hplace⟩ := hstatement
              refine ⟨[first, colon], back, rfl, ?_, hpart, ?_⟩
              · rw [hlabel]
                exact .label hkind hname hcolon
              · cases back <;> simp [hplace]
  · rintro ⟨front, back, rfl, hfront, hpart, hplace⟩
    have hback : ∀ token ∈ back, token.Sound :=
      fun token hmem => hsound token (List.mem_append_right front hmem)
    generalize hlabel : statement.label = label at hfront
    cases hfront with
    | absent =>
        cases back with
        | nil => cases hplace
        | cons name rest =>
            have hcolon : ∀ token ∈ rest.head?, token.kind ≠ .single ':' := by
              generalize statement.instruction = instruction at hpart
              cases hpart with
              | instruction hform => exact hform.operands.head_ne_colon
            rw [List.nil_append, statementOf_of_no_label fun token hmem _ => hcolon token hmem,
              map_some_eq_ok_iff, labelledStatement_eq_ok_iff hback]
            exact ⟨hlabel, hpart, by simpa [eq_comm] using hplace⟩
    | @label name colon hkind hname hcolon =>
        rw [List.cons_append, List.cons_append, List.nil_append,
          statementOf_of_label hkind hcolon hname, map_some_eq_ok_iff,
          labelledStatement_eq_ok_iff hback]
        refine ⟨hlabel, hpart, ?_⟩
        cases back with
        | nil => simpa [eq_comm] using hplace
        | cons first rest => simpa [eq_comm] using hplace

/-- A line has at most one reading. -/
theorem LineForm.unique {tokens : List Token} {statement other : Statement}
    (hsound : ∀ token ∈ tokens, token.Sound) (hstatement : LineForm tokens statement)
    (hother : LineForm tokens other) : statement = other := by
  rw [← statementOf_eq_ok_iff hsound] at hstatement hother
  exact Option.some.inj (Except.ok.inj (hstatement.symm.trans hother))

/-- A line is empty, or of the form of one statement, or refused with a notice. -/
theorem parseLine_cases {line : SourceLine} (hsound : ∀ token ∈ line.tokens, token.Sound) :
    (line.tokens = [] ∧ parseLine line = ⟨[], line.notices⟩) ∨
    (∃ statement, line.tokens ≠ [] ∧ LineForm line.tokens statement ∧
      parseLine line = ⟨[statement], line.notices⟩) ∨
    (line.tokens ≠ [] ∧ (∀ statement, ¬ LineForm line.tokens statement) ∧
      ∃ notices, notices ≠ [] ∧ parseLine line = ⟨[], line.notices ++ notices⟩) := by
  simp only [← statementOf_eq_ok_iff hsound]
  by_cases hempty : line.tokens = []
  · exact .inl ⟨hempty, by simp [parseLine, hempty, statementOf]⟩
  refine .inr ?_
  cases hresult : statementOf line.tokens with
  | ok result =>
      obtain ⟨statement, rfl⟩ := exists_of_statementOf hempty hresult
      exact .inl ⟨statement, hempty, rfl, by simp [parseLine, hresult]⟩
  | error notices =>
      have hflags : ∀ token ∈ line.tokens, token.flagged = false :=
        fun token hmem => (hsound token hmem).1
      have hnotices := notices_ne_nil_of_statementOf hflags hresult
      exact .inr ⟨hempty, by simp, notices, hnotices, by simp only [parseLine, hresult]⟩

/-- A line is read without a notice exactly if it is empty or has the form of a line. -/
theorem notices_parseLine_eq_nil_iff {line : SourceLine}
    (hsound : ∀ token ∈ line.tokens, token.Sound) (hnotices : line.notices = []) :
    (parseLine line).notices = [] ↔
      line.tokens = [] ∨ ∃ statement, LineForm line.tokens statement := by
  rcases parseLine_cases hsound with ⟨hempty, hparsed⟩ | ⟨statement, -, hform, hparsed⟩ |
    ⟨hsome, hnone, notices, hnotice, hparsed⟩
  · exact iff_of_true (by rw [hparsed, hnotices]) (.inl hempty)
  · exact iff_of_true (by rw [hparsed, hnotices]) (.inr ⟨statement, hform⟩)
  · refine iff_of_false ?_ ?_
    · rw [hparsed, hnotices]
      exact hnotice
    · rintro (hempty | ⟨statement, hform⟩)
      · exact hsome hempty
      · exact hnone statement hform

/-- Lines without a notice are statements one by one, but for those that are empty. -/
theorem forall₂_lineForm_of_parseLine {lines : List SourceLine}
    (hsound : ∀ line ∈ lines, ∀ token ∈ line.tokens, token.Sound)
    (hparsed : ∀ line ∈ lines, (parseLine line).notices = []) :
    List.Forall₂ (fun line statement => LineForm line.tokens statement)
      (lines.filter fun line => !line.tokens.isEmpty)
      (lines.flatMap fun line => (parseLine line).statements) := by
  induction lines with
  | nil => exact .nil
  | cons line lines ih =>
      obtain ⟨hhere, hlater⟩ := List.forall_mem_cons.mp hsound
      obtain ⟨hnotices, hothers⟩ := List.forall_mem_cons.mp hparsed
      rw [List.flatMap_cons]
      rcases parseLine_cases hhere with ⟨hempty, hline⟩ | ⟨statement, hsome, hform, hline⟩ |
        ⟨-, -, notices, hnotice, hline⟩
      · rw [hline, List.nil_append, List.filter_cons_of_neg (by simp [hempty])]
        exact ih hlater hothers
      · rw [hline, List.singleton_append, List.filter_cons_of_pos (by simpa using hsome)]
        exact .cons hform (ih hlater hothers)
      · rw [hline] at hnotices
        exact absurd (List.append_eq_nil_iff.mp hnotices).2 hnotice

/-! ### Sources -/

namespace Source

theorem sound_of_mem {source : Source} (hlines : ∀ line ∈ source.lines, line.notices = [])
    {line : SourceLine} (hline : line ∈ source.lines) :
    ∀ token ∈ line.tokens, token.Sound := by
  intro token htoken
  obtain ⟨hreadable, words, hlexes⟩ := readable_of_lines hlines
  obtain ⟨said, hsaid⟩ := exists_says_of_mem (says_of_lexes hreadable.readProblems hlexes) hline
  have hflag : token.flagged = false := hsaid.1.2 token htoken
  exact ⟨hflag, fun hkind => (isLexeme_of_mem hline htoken).exists_integerLiteral hkind hflag⟩

/-- A source that is read without a notice is parsed without one exactly if each of its lines is
empty or of the form of a statement. These are then its statements, in order. The form tells what
the statement is, and a name and the kinds of the operands tell what the opcode is. -/
theorem parse_grammar {source : Source} (hlines : ∀ line ∈ source.lines, line.notices = []) :
    (source.parse.notices = [] ↔
      ∀ line ∈ source.lines, line.tokens = [] ∨ ∃ statement, LineForm line.tokens statement) ∧
    (source.parse.notices = [] →
      List.Forall₂ (fun line statement => LineForm line.tokens statement)
        (source.lines.filter fun line => !line.tokens.isEmpty) source.parse.statements) ∧
    (∀ line ∈ source.lines, ∀ statement other,
      LineForm line.tokens statement → LineForm line.tokens other → statement = other) ∧
    ∀ name opcode other, name ∈ Opcode.spellings opcode → name ∈ Opcode.spellings other →
      opcode.operands = other.operands → opcode = other := by
  refine ⟨?_, ?_, ?_, fun name opcode other => Opcode.eq_of_spelling⟩
  · rw [notices_parse_eq_nil_iff]
    exact forall₂_congr fun line hline =>
      notices_parseLine_eq_nil_iff (sound_of_mem hlines hline) (hlines line hline)
  · intro hparsed
    rw [statements_parse hparsed]
    exact forall₂_lineForm_of_parseLine (fun line hline => sound_of_mem hlines hline)
      (notices_parse_eq_nil_iff.mp hparsed)
  · intro line hline statement other hstatement hother
    exact hstatement.unique (sound_of_mem hlines hline) hother

/-- Two statements with an empty line and a comment between them. -/
def mixedCase : Source := .ofBytes (utf8Bytes "loop: JZ loop\n\n# last\nMov R007, '\\n'") none

/-- The statements of `mixedCase`. -/
def mixedStatements : List Statement :=
  [⟨⟨6, 1, 7⟩, some "loop", some ⟨.branch .equal, [⟨.label "loop", ⟨9, 1, 10⟩⟩]⟩⟩,
    ⟨⟨22, 4, 1⟩, none, some ⟨.binary .mov .immediate,
      [⟨.register 7, ⟨26, 4, 5⟩⟩, ⟨.immediate 10, ⟨32, 4, 11⟩⟩]⟩⟩]

/-- Names in upper and lower case, with a label, an empty line and a comment. -/
theorem parse_grammar_of_mixedCase :
    List.Forall₂ (fun line statement => LineForm line.tokens statement)
      (mixedCase.lines.filter fun line => !line.tokens.isEmpty) mixedStatements := by
  have hlines : ∀ line ∈ mixedCase.lines, line.notices = [] := by decide +kernel
  have hparsed : mixedCase.parse.notices = [] := by decide +kernel
  have hstatements : mixedCase.parse.statements = mixedStatements := by decide +kernel
  rw [← hstatements]
  exact (parse_grammar hlines).2.1 hparsed

end Source

end Octet
