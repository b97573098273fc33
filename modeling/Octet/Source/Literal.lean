import Octet.Text.Numeral

/-! # What character literals stand for

A character literal stands for the code of one character. The escapes `\u` and
`\U` give a code, an escape by `\x` or by octal digits gives a byte. A byte of 128
or more is no character by itself and reads as the replacement character.
-/

namespace Octet

/-- The code of the character that replaces what cannot be read. -/
def replacementCode : Nat := 0xFFFD

/-- The code that a single byte reads as. -/
def byteCode (byte : Nat) : Nat := if byte < 128 then byte else replacementCode

/-- The code that an escape gives, and the text after it; the backslash comes before. -/
def escapeCode? : List Char → Option (Nat × List Char)
  | 'a' :: rest => some (7, rest)
  | 'b' :: rest => some (8, rest)
  | 'f' :: rest => some (12, rest)
  | 'n' :: rest => some (10, rest)
  | 'r' :: rest => some (13, rest)
  | 't' :: rest => some (9, rest)
  | 'v' :: rest => some (11, rest)
  | '\\' :: rest => some (92, rest)
  | '\'' :: rest => some (39, rest)
  | 'x' :: rest => (fixedDigits 16 0 2 rest).map fun (value, rest) => (byteCode value, rest)
  | 'u' :: rest => characterDigits 4 rest
  | 'U' :: rest => characterDigits 8 rest
  | rest =>
    match fixedDigits 8 0 3 rest with
    | some (value, rest) => if value < 256 then some (byteCode value, rest) else none
    | none => none
where
  /-- A code of `count` digits, which has to be the one of a character. -/
  characterDigits (count : Nat) (rest : List Char) : Option (Nat × List Char) :=
    match fixedDigits 16 0 count rest with
    | some (value, rest) => if isCharacterCode value then some (value, rest) else none
    | none => none

/-- The code that a character literal, with its quotes, stands for. -/
def characterLiteral? : List Char → Option Nat
  | '\'' :: '\\' :: rest =>
    match escapeCode? rest with
    | some (code, ['\'']) => some code
    | _ => none
  | ['\'', c, '\''] => if c = '\'' ∨ c = '\n' then none else some c.toNat
  | _ => none

end Octet
