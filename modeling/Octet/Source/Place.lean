import Octet.Text.Utf8

/-! # Places in a source text

A place counts bytes from zero, and lines and characters from one.
-/

namespace Octet

/-- Where a symbol of the source stands. -/
structure Place where
  /-- The number of bytes before it. -/
  offset : Nat
  /-- Its line; zero if the place is not known. -/
  line : Nat
  /-- Its place in the line. -/
  column : Nat
  deriving DecidableEq, Repr

namespace Place

/-- The place of the first symbol. -/
def start : Place := ⟨0, 1, 1⟩

/-- The place after a symbol. -/
def after (place : Place) (symbol : Symbol) : Place :=
  if symbol = .char '\n' then ⟨place.offset + 1, place.line + 1, 1⟩
  else ⟨place.offset + symbol.width, place.line, place.column + 1⟩

/-- The place after several symbols. -/
def afterAll (place : Place) (symbols : List Symbol) : Place := symbols.foldl after place

/-- A place in the text called `file` as it is shown in messages. -/
def text (place : Place) (file : String) : String :=
  (if file.isEmpty then "<input>" else file)
    ++ (if 0 < place.line then ":" ++ toString place.line ++ ":" ++ toString place.column else "")

end Place

end Octet
