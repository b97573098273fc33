import Octet.Source.Place
import Octet.Text.Numeral
import Octet.Text.Quoted

/-! # What can be wrong with a source text

A `Problem` says what is wrong, a `Notice` also where, and a `Diagnostic` names
the source as well. The wording is in one place, `Problem.message`. Notices are
recorded one by one, and when there are enough of them, further ones are dropped.
-/

namespace Octet

/-- The kinds of problems. -/
inductive ProblemKind where
  | malformed
  | duplicateLabel
  | unresolvedLabel
  | invalidRegister
  | programTooLarge
  deriving DecidableEq, Repr

namespace ProblemKind

/-- The kinds in the order in which reports list them. -/
def all : List ProblemKind :=
  [malformed, duplicateLabel, unresolvedLabel, invalidRegister, programTooLarge]

/-- The text of a kind. -/
def name : ProblemKind → String
  | malformed => "syntax error"
  | duplicateLabel => "duplicate label"
  | unresolvedLabel => "unresolved label"
  | invalidRegister => "invalid register"
  | programTooLarge => "program too large"

end ProblemKind

/-- Something that is wrong with a source text. -/
inductive Problem where
  /-- The source could not be read to its end. -/
  | unreadable (reason : String)
  /-- A byte belongs to no character. -/
  | invalidEncoding
  | nulCharacter
  | noDigits (radix : Radix)
  | invalidDigit (digit : Char) (radix : Radix)
  /-- An underscore does not stand between two digits. -/
  | misplacedSeparator
  /-- A character literal has no closing quote in its line. -/
  | unterminatedLiteral
  /-- A character literal does not hold one character. -/
  | notOneCharacter
  | badEscape
  | registerAsLabel (name : String)
  | expectedInstruction (found : List Symbol)
  | unknownInstruction (found : List Symbol)
  | expectedComma (found : List Symbol)
  | missingOperand
  /-- No form of the instruction takes operands of these kinds; `forms` shows the ones there are. -/
  | badOperands (name forms : String)
  | registerIndex (name : String)
  | valueRange (literal : String)
  | badNumber (literal : String)
  | badCharacter (literal : String)
  | negativeValue
  | unexpectedToken (found : List Symbol)
  | duplicateLabel (name : String) (previous : Place)
  | unresolvedLabel (name : String)
  | invalidRegister (index count : Nat)
  | programTooLarge
  /-- The program builder refused an instruction. -/
  | refusedInstruction (reason : String)
  /-- The program builder refused a branch target. -/
  | refusedTarget (reason : String)
  deriving DecidableEq, Repr

namespace Problem

/-- The kind of a problem. -/
def kind : Problem → ProblemKind
  | duplicateLabel _ _ => .duplicateLabel
  | unresolvedLabel _ => .unresolvedLabel
  | invalidRegister _ _ => .invalidRegister
  | programTooLarge | refusedTarget _ => .programTooLarge
  | _ => .malformed

/-- The text of a problem in the source called `file`. -/
def message (file : String) : Problem → String
  | unreadable reason => reason
  | invalidEncoding => "invalid UTF-8 encoding"
  | nulCharacter => "invalid character NUL"
  | noDigits radix => radix.literalName ++ " has no digits"
  | invalidDigit digit radix => "invalid digit '" ++ digit.toString ++ "' in " ++ radix.literalName
  | misplacedSeparator => "'_' must separate successive digits"
  | unterminatedLiteral => "literal not terminated"
  | notOneCharacter => "invalid char literal"
  | badEscape => "invalid char escape"
  | registerAsLabel name => "register name used as label: " ++ name
  | expectedInstruction found => "expected instruction, got " ++ quoteSymbols found
  | unknownInstruction found => "unknown instruction " ++ quoteSymbols found
  | expectedComma found => "expected ',', got " ++ quoteSymbols found
  | missingOperand => "missing operand after ','"
  | badOperands name forms => "bad operands for " ++ name ++ ", expected " ++ forms
  | registerIndex name => "register index out of range: " ++ name
  | valueRange literal => "value out of range [0:255]: " ++ literal
  | badNumber literal => "invalid number: " ++ literal
  | badCharacter literal => "invalid character literal: " ++ literal
  | negativeValue => "negative values are not supported"
  | unexpectedToken found => "unexpected " ++ quoteSymbols found
  | duplicateLabel name previous => name ++ ", previous definition here: " ++ previous.text file
  | unresolvedLabel name => name
  | invalidRegister index count =>
    "r" ++ toString index ++ " (register count is " ++ toString count ++ ")"
  | programTooLarge => "code exceeds 65535 bytes"
  | refusedInstruction reason => reason
  | refusedTarget reason => reason

end Problem

/-- A problem and the place in the source where it shows. -/
structure Notice where
  place : Place
  problem : Problem
  deriving DecidableEq, Repr

/-- The number of notices after which nothing more is recorded about a source. -/
def maxDiagnostics : Nat := 10

namespace Notice

/-- Whether enough is known to be wrong. -/
def enough (notices : List Notice) : Bool := maxDiagnostics ≤ notices.length

/-- Records a notice besides those there are, which have the last one first. -/
def record (notices : List Notice) (notice : Notice) : List Notice :=
  if enough notices then notices else notice :: notices

/-- Records some notices in order. -/
def recordAll (notices found : List Notice) : List Notice := found.foldl record notices

end Notice

/-- The text of a problem of some kind at a place of the source called `file`. A place that is not
known is left out. -/
def reportText (file : String) (place : Place) (kind : ProblemKind) (message : String) : String :=
  (if 0 < place.line then place.text file ++ ": " else "") ++ kind.name ++ ": " ++ message

/-- A problem, its place, and the name of the source. -/
structure Diagnostic where
  file : String
  place : Place
  problem : Problem
  deriving DecidableEq, Repr

namespace Diagnostic

/-- The kind of a diagnostic. -/
def kind (diagnostic : Diagnostic) : ProblemKind := diagnostic.problem.kind

/-- What a diagnostic says, without its place. -/
def message (diagnostic : Diagnostic) : String := diagnostic.problem.message diagnostic.file

/-- The whole text of a diagnostic. -/
def text (diagnostic : Diagnostic) : String :=
  reportText diagnostic.file diagnostic.place diagnostic.kind diagnostic.message

end Diagnostic

end Octet
