import Octet.Text.Class
import Octet.Text.Utf8

/-! # Quoted text

Text between double quotes in which nothing can be mistaken: quotes, backslashes
and characters that do not show are written as escapes, and so are bytes that
belong to no character.
-/

namespace Octet

/-- The digits of a number in base sixteen, at least `places` of them. -/
def hexText (places value : Nat) : String :=
  let digits := Nat.toDigits 16 value
  String.ofList (List.replicate (places - digits.length) '0' ++ digits)

/-- A character as it is written between the quotes. -/
def quotedChar (c : Char) : String :=
  if c = '"' then "\\\""
  else if c = '\\' then "\\\\"
  else if isVisible c then c.toString
  else
    match c.toNat with
    | 7 => "\\a"
    | 8 => "\\b"
    | 9 => "\\t"
    | 10 => "\\n"
    | 11 => "\\v"
    | 12 => "\\f"
    | 13 => "\\r"
    | code =>
      if code < 32 ∨ code = 127 then "\\x" ++ hexText 2 code
      else if code < 0x10000 then "\\u" ++ hexText 4 code
      else "\\U" ++ hexText 8 code

/-- A symbol as it is written between the quotes. -/
def quotedSymbol : Symbol → String
  | .char c => quotedChar c
  | .stray byte _ => "\\x" ++ hexText 2 byte.toNat

/-- Some symbols between quotes. -/
def quoteSymbols (symbols : List Symbol) : String :=
  "\"" ++ String.join (symbols.map quotedSymbol) ++ "\""

/-- A text between quotes. -/
def quote (text : String) : String := quoteSymbols (textSymbols text)

end Octet
