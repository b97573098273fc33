import Octet.Opcode
import Octet.Source.Line
import Octet.Source.Literal

/-! # Statements

A line that holds anything is a statement: a label, an instruction, or both. A
line that is none is refused with at most one notice. It is refused without one
when an operand was flagged while it was read, since its problem has been
reported already.
-/

namespace Octet

/-- What an operand gives. -/
inductive OperandValue where
  | register (index : UInt8)
  | immediate (value : UInt8)
  | label (name : String)
  deriving DecidableEq, Repr

/-- The kind of an operand by what it gives. -/
def OperandValue.kind : OperandValue → OperandKind
  | register _ => .register
  | immediate _ => .immediate
  | label _ => .label

/-- An operand in a source. -/
structure Operand where
  value : OperandValue
  place : Place
  deriving DecidableEq, Repr

/-- An instruction in a source. -/
structure Instruction where
  opcode : Opcode
  operands : List Operand
  deriving DecidableEq, Repr

/-- A statement. Its place is that of the name of its instruction, or of its label if it has no
instruction. -/
structure Statement where
  place : Place
  label : Option String
  instruction : Option Instruction
  deriving DecidableEq, Repr

/-- The index in the name of a register, which is `r` or `R` and decimal digits. -/
def registerIndex? : List Char → Option Nat
  | first :: digit :: digits =>
    if (first = 'r' ∨ first = 'R') ∧ (digit :: digits).all Char.isDigit then
      some ((digit :: digits).foldl (fun value c => value * 10 + (c.toNat - '0'.toNat)) 0)
    else none
  | _ => none

/-- Names of instructions besides those of the opcodes. -/
def aliases : List (String × String) := [("jz", "je"), ("jnz", "jne")]

/-- The opcodes that share a name, the name being in lower case. -/
def opcodesNamed (name : String) : List Opcode :=
  let name := (aliases.lookup name).getD name
  Opcode.all.filter fun opcode => opcode.name == name

/-- The operands that an opcode takes, after its name. -/
def formText (name : String) (opcode : Opcode) : String :=
  match opcode.operands with
  | [] => name
  | kinds => name ++ " " ++ String.intercalate ", " (kinds.map OperandKind.name)

/-- The forms of an instruction as they are shown to someone who used none of them. -/
def formsText (name : String) (opcodes : List Opcode) : String :=
  String.intercalate " or " (opcodes.map fun opcode => quote (formText name opcode))

namespace Token

/-- The characters of a token. -/
def chars (token : Token) : List Char := token.text.map Symbol.toChar

/-- The text of a token. -/
def string (token : Token) : String := String.ofList token.chars

end Token

/-- The operand that a token gives, or the notices why it gives none. -/
def operandOf (token : Token) : Except (List Notice) Operand :=
  if token.flagged then .error []
  else
    match token.kind with
    | .identifier =>
      match registerIndex? token.chars with
      | some index =>
        if index < 256 then .ok ⟨.register index.toUInt8, token.place⟩
        else .error [⟨token.place, .registerIndex token.string⟩]
      | none => .ok ⟨.label token.string, token.place⟩
    | .integer =>
      match readNumeral 255 token.chars with
      | .ok value => .ok ⟨.immediate value.toUInt8, token.place⟩
      | .error .tooLarge => .error [⟨token.place, .valueRange token.string⟩]
      | .error .malformed => .error [⟨token.place, .badNumber token.string⟩]
    | .character =>
      match characterLiteral? token.chars with
      | some code =>
        if code < 256 then .ok ⟨.immediate code.toUInt8, token.place⟩
        else .error [⟨token.place, .valueRange token.string⟩]
      | none => .error [⟨token.place, .badCharacter token.string⟩]
    | .single c =>
      if c = '-' then .error [⟨token.place, .negativeValue⟩]
      else .error [⟨token.place, .unexpectedToken token.text⟩]

/-- The operands that tokens give after those in `done`, which has the last one first; `place` is
the place of the name of the instruction. -/
def operandsFrom (place : Place) (done : List Operand) :
    List Token → Except (List Notice) (List Operand)
  | [] => .ok done.reverse
  | first :: rest =>
    match operandOf first with
    | .error notices => .error notices
    | .ok operand =>
      match rest with
      | [] => .ok (operand :: done).reverse
      | comma :: rest =>
        if comma.kind ≠ .single ',' then .error [⟨comma.place, .expectedComma comma.text⟩]
        else if rest.isEmpty then .error [⟨place, .missingOperand⟩]
        else operandsFrom place (operand :: done) rest

/-- The instruction that starts with the token `name`. -/
def instructionOf (name : Token) (rest : List Token) : Except (List Notice) Instruction :=
  if name.kind ≠ .identifier then .error [⟨name.place, .expectedInstruction name.text⟩]
  else
    let lower := String.ofList (name.chars.map asciiLower)
    let opcodes := opcodesNamed lower
    if opcodes.isEmpty then .error [⟨name.place, .unknownInstruction name.text⟩]
    else
      match operandsFrom name.place [] rest with
      | .error notices => .error notices
      | .ok operands =>
        match opcodes.find? fun opcode =>
            opcode.operands == operands.map fun operand => operand.value.kind with
        | some opcode => .ok ⟨opcode, operands⟩
        | none => .error [⟨name.place, .badOperands lower (formsText lower opcodes)⟩]

/-- The statement without a label that the tokens make, put after the label `label`; `place` is the
place of the first token of the line. -/
def labelledStatement (place : Place) (label : Option String) :
    List Token → Except (List Notice) Statement
  | [] => .ok ⟨place, label, none⟩
  | name :: rest =>
    match instructionOf name rest with
    | .error notices => .error notices
    | .ok instruction => .ok ⟨name.place, label, some instruction⟩

/-- The statement that the tokens of a line make; none if there are no tokens. -/
def statementOf : List Token → Except (List Notice) (Option Statement)
  | [] => .ok none
  | [only] => (labelledStatement only.place none [only]).map some
  | first :: second :: rest =>
    if first.kind = .identifier ∧ second.kind = .single ':' then
      if (registerIndex? first.chars).isSome then
        .error [⟨first.place, .registerAsLabel first.string⟩]
      else (labelledStatement first.place (some first.string) rest).map some
    else (labelledStatement first.place none (first :: second :: rest)).map some

/-- The statements of a source and what is wrong with it: for each line what was noticed while it
was read, then why it is no statement. -/
structure Parsed where
  statements : List Statement
  notices : List Notice

/-- Parses lines after others, of which the statements and the notices are given with the last one
first. A line is parsed once it is read, unless enough is known to be wrong by then; nothing is
read behind such a line. -/
def parseLines (statements : List Statement) (notices : List Notice) : List SourceLine → Parsed
  | [] => ⟨statements.reverse, notices.reverse⟩
  | line :: lines =>
    let notices := Notice.recordAll notices line.notices
    if Notice.enough notices then ⟨statements.reverse, notices.reverse⟩
    else
      match statementOf line.tokens with
      | .ok statement => parseLines (statement.toList ++ statements) notices lines
      | .error found => parseLines statements (Notice.recordAll notices found) lines

/-- The statements of a source and what is wrong with it. -/
def Source.parse (source : Source) : Parsed := parseLines [] [] source.lines

end Octet
