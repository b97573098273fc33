/-! # Integer literals

Literals in base ten, or in the base that their beginning names: `0x`, `0o` and
`0b` in either case of the letter, and a leading zero alone for base eight.
Underscores may separate digits; the beginning that names a base counts as a
digit for that rule.
-/

namespace Octet

/-- The bases of integer literals. -/
inductive Radix where
  | binary
  | octal
  | decimal
  | hexadecimal
  deriving DecidableEq, Repr

namespace Radix

/-- The base as a number. -/
def base : Radix → Nat
  | binary => 2
  | octal => 8
  | decimal => 10
  | hexadecimal => 16

/-- The name of literals in a base. -/
def literalName : Radix → String
  | binary => "binary literal"
  | octal => "octal literal"
  | decimal => "decimal literal"
  | hexadecimal => "hexadecimal literal"

/-- The base that the letter after a leading zero names. -/
def ofLetter? (letter : Char) : Option Radix :=
  match letter with
  | 'b' | 'B' => some binary
  | 'o' | 'O' => some octal
  | 'x' | 'X' => some hexadecimal
  | _ => none

end Radix

/-- Whether a character is one of `0` to `9`, `a` to `f` and `A` to `F`. -/
def isHexDigit (c : Char) : Bool :=
  c.isDigit || ('a' ≤ c && c ≤ 'f') || ('A' ≤ c && c ≤ 'F')

/-- The value of a digit or letter: letters of either case follow nine. -/
def digitValue? (c : Char) : Option Nat :=
  if c.isDigit then some (c.toNat - '0'.toNat)
  else if 'a' ≤ c ∧ c ≤ 'z' then some (c.toNat - 'a'.toNat + 10)
  else if 'A' ≤ c ∧ c ≤ 'Z' then some (c.toNat - 'A'.toNat + 10)
  else none

/-- Whether a number is the code of a character. -/
def isCharacterCode (code : Nat) : Bool :=
  code < 0xD800 || (0xDFFF < code && code < 0x110000)

/-- The number that exactly `count` digits make after those that make `value`, and the text after
them. -/
def fixedDigits (base value : Nat) : Nat → List Char → Option (Nat × List Char)
  | 0, rest => some (value, rest)
  | count + 1, c :: rest =>
    match digitValue? c with
    | some digit =>
      if digit < base then fixedDigits base (value * base + digit) count rest else none
    | none => none
  | _ + 1, [] => none

/-- Whether each underscore stands between two digits; `afterDigit` tells whether a digit precedes
the text. -/
def separatorsFit (afterDigit : Bool) : List Char → Bool
  | [] => true
  | '_' :: rest =>
    afterDigit && (match rest with | c :: _ => c != '_' && isHexDigit c | [] => false)
      && separatorsFit false rest
  | c :: rest => separatorsFit (isHexDigit c) rest

/-- Whether each underscore of a literal stands between two digits. -/
def literalSeparatorsFit : List Char → Bool
  | '0' :: letter :: digits =>
    match Radix.ofLetter? letter with
    | some _ => separatorsFit true digits
    | none => separatorsFit true (letter :: digits)
  | text => separatorsFit false text

/-- Why a text is not the literal of a number. -/
inductive NumeralProblem where
  /-- It is no literal. -/
  | malformed
  /-- The number exceeds the given bound. -/
  | tooLarge
  deriving DecidableEq, Repr

/-- The base of a literal and the text of its digits. A beginning that names a base counts as one
only if something follows it. -/
def splitRadix : List Char → Radix × List Char
  | '0' :: letter :: digit :: rest =>
    match Radix.ofLetter? letter with
    | some radix => (radix, digit :: rest)
    | none => (.octal, letter :: digit :: rest)
  | '0' :: rest => (.octal, rest)
  | text => (.decimal, text)

/-- Reads digits after those that make `value`, with underscores passed over. The first digit that
is none of the base, or that takes the number beyond `bound`, decides. -/
def readDigits (radix : Radix) (bound value : Nat) : List Char → Except NumeralProblem Nat
  | [] => .ok value
  | '_' :: rest => readDigits radix bound value rest
  | c :: rest =>
    match digitValue? c with
    | none => .error .malformed
    | some digit =>
      if radix.base ≤ digit then .error .malformed
      else if bound < value * radix.base + digit then .error .tooLarge
      else readDigits radix bound (value * radix.base + digit) rest

/-- The number that a literal stands for, at most `bound`. -/
def readNumeral (bound : Nat) (text : List Char) : Except NumeralProblem Nat :=
  if text.isEmpty then .error .malformed
  else
    let (radix, digits) := splitRadix text
    match readDigits radix bound 0 digits with
    | .error problem => .error problem
    | .ok value => if literalSeparatorsFit text then .ok value else .error .malformed

/-- The number in two's complement of 64 bits that a literal with an optional sign stands for. -/
def readSignedNumeral (text : List Char) : Except NumeralProblem Int :=
  let (negative, digits) :=
    match text with
    | '+' :: digits => (false, digits)
    | '-' :: digits => (true, digits)
    | digits => (false, digits)
  match readNumeral (Nat.pow 2 64 - 1) digits with
  | .error problem => .error problem
  | .ok value =>
    if negative then
      if Nat.pow 2 63 < value then .error .tooLarge else .ok (-value)
    else if Nat.pow 2 63 ≤ value then .error .tooLarge
    else .ok value

end Octet
