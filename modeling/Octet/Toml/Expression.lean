import Octet.Toml.Scalar
import Octet.Text.Utf8

/-! # The expressions of configuration text

TOML text is a sequence of expressions: headers of tables, headers of tables in
arrays, and keys with their values. This module reads the text as such a
sequence. What the expressions mean together, and whether they contradict each
other, is not decided here.
-/

namespace Octet.Toml

/-- A key: the names of the tables it leads through and its own. -/
abbrev Key := List String

/-- A value. -/
inductive Value where
  | scalar (value : Scalar)
  | array (elements : List Value)
  | table (entries : List (Key × Value))

/-- A header or an entry. -/
inductive Expression where
  /-- The header of a table. -/
  | table (key : Key)
  /-- The header of a further table in an array of tables. -/
  | tables (key : Key)
  | entry (key : Key) (value : Value)

/-! ### Characters -/

/-- The text without a mark of its byte order at the beginning. -/
def withoutMark : List UInt8 → List UInt8
  | 0xEF :: 0xBB :: 0xBF :: rest => rest
  | 0xFF :: 0xFE :: rest => rest
  | 0xFE :: 0xFF :: rest => rest
  | bytes => bytes

/-- Whether a character may not occur at all: every control character but the tab and the line
break. -/
def isForbidden (c : Char) : Bool := (c.toNat < 32 && c != '\t' && c != '\n') || c.toNat = 127

/-- The characters of a text, after those in `done`, which has the last one first. A carriage return
is part of the line break that it stands before, and may not stand elsewhere. -/
def plainChars (done : List Char) : List Symbol → Option (List Char)
  | [] => some done.reverse
  | .char '\r' :: .char '\n' :: rest => plainChars ('\n' :: done) rest
  | .char c :: rest => if isForbidden c then none else plainChars (c :: done) rest
  | .stray _ _ :: _ => none

/-- Whether a character is a blank. -/
def isBlank (c : Char) : Bool := c = ' ' || c = '\t'

/-- Whether a character may stand in a key without quotes. -/
def isBare (c : Char) : Bool := c.isAlphanum || c = '_' || c = '-'

/-- The text after its blanks. -/
def passBlanks (text : List Char) : List Char := text.dropWhile isBlank

/-- The text after its blanks, line breaks and comments; `inComment` tells that it starts within a
comment. -/
def passGaps (inComment : Bool) : List Char → List Char
  | [] => []
  | c :: rest =>
    if c = '\n' then passGaps false rest
    else if inComment then passGaps true rest
    else if isBlank c then passGaps false rest
    else if c = '#' then passGaps true rest
    else c :: rest

/-! ### Keys -/

/-- One part of a key. -/
def keyPart (text : List Char) : Option (String × List Char) :=
  match text with
  | '"' :: rest => (basicText [] (rest.length + 1) rest).map fun (name, rest) =>
      (String.ofList name, rest)
  | '\'' :: rest => (literalText rest).map fun (name, rest) => (String.ofList name, rest)
  | text =>
    let name := text.takeWhile isBare
    if name.isEmpty then none else some (String.ofList name, text.dropWhile isBare)

/-- A key whose parts stand between points, after the parts in `done`, which has the last one first.
Blanks around the parts are passed. -/
def readKey (done : Key) : Nat → List Char → Option (Key × List Char)
  | 0, _ => none
  | fuel + 1, text =>
    match keyPart (passBlanks text) with
    | none => none
    | some (part, rest) =>
      match passBlanks rest with
      | '.' :: rest => readKey (part :: done) fuel rest
      | rest => some ((part :: done).reverse, rest)

/-! ### Values -/

/-- A value that starts with a letter: the two truth values, infinity and not-a-number. -/
def readWord (text : List Char) : Option (Scalar × List Char) :=
  let word := text.takeWhile Char.isAlpha
  let rest := text.dropWhile Char.isAlpha
  match String.ofList word with
  | "true" => some (.boolean true, rest)
  | "false" => some (.boolean false, rest)
  | "inf" | "nan" => some (.float, rest)
  | _ => none

/-- A value that has no parts. -/
def readScalar (text : List Char) : Option (Scalar × List Char) :=
  match text with
  | '"' :: '"' :: '"' :: rest =>
    (passLines '"' true false (rest.length + 1) rest).map (Scalar.text, ·)
  | '\'' :: '\'' :: '\'' :: rest =>
    (passLines '\'' false false (rest.length + 1) rest).map (Scalar.text, ·)
  | '"' :: rest => (basicText [] (rest.length + 1) rest).map fun (_, rest) => (.text, rest)
  | '\'' :: rest => (literalText rest).map fun (_, rest) => (.text, rest)
  | c :: _ =>
    if c.isDigit then numberOrDate text
    else if c = '+' || c = '-' then signedNumber text
    else readWord text
  | [] => none

mutual

/-- A value at the beginning of a text. -/
def readValue : Nat → List Char → Option (Value × List Char)
  | 0, _ => none
  | fuel + 1, '[' :: rest =>
    (readElements [] fuel rest).map fun (elements, rest) => (.array elements, rest)
  | fuel + 1, '\x7b' :: rest =>
    (readEntries [] fuel rest).map fun (entries, rest) => (.table entries, rest)
  | _ + 1, text => (readScalar text).map fun (scalar, rest) => (.scalar scalar, rest)

/-- The elements of an array after those in `done`, which has the last one first, and the text after
the closing bracket. -/
def readElements (done : List Value) : Nat → List Char → Option (List Value × List Char)
  | 0, _ => none
  | fuel + 1, text =>
    match passGaps false text with
    | ']' :: rest => some (done.reverse, rest)
    | text =>
      match readValue fuel text with
      | none => none
      | some (element, rest) =>
        match passGaps false rest with
        | ',' :: rest => readElements (element :: done) fuel rest
        | ']' :: rest => some ((element :: done).reverse, rest)
        | _ => none

/-- The entries of a table in braces after those in `done`, which has the last one first, and the
text after the closing brace. -/
def readEntries (done : List (Key × Value)) :
    Nat → List Char → Option (List (Key × Value) × List Char)
  | 0, _ => none
  | fuel + 1, text =>
    match passGaps false text with
    | '\x7d' :: rest => some (done.reverse, rest)
    | text =>
      match readEntry fuel text with
      | none => none
      | some (entry, rest) =>
        match passGaps false rest with
        | ',' :: rest => readEntries (entry :: done) fuel rest
        | '\x7d' :: rest => some ((entry :: done).reverse, rest)
        | _ => none

/-- A key and its value. -/
def readEntry : Nat → List Char → Option ((Key × Value) × List Char)
  | 0, _ => none
  | fuel + 1, text =>
    match readKey [] fuel text with
    | some (key, '=' :: rest) =>
      (readValue fuel (passBlanks rest)).map fun (value, rest) => ((key, value), rest)
    | _ => none

end

/-! ### Whole texts -/

/-- An expression at the beginning of a text. -/
def readExpression (fuel : Nat) (text : List Char) : Option (Expression × List Char) :=
  match text with
  | '[' :: '[' :: rest =>
    match readKey [] fuel rest with
    | some (key, ']' :: ']' :: rest) => some (.tables key, rest)
    | _ => none
  | '[' :: rest =>
    match readKey [] fuel rest with
    | some (key, ']' :: rest) => some (.table key, rest)
    | _ => none
  | text => (readEntry fuel text).map fun ((key, value), rest) => (.entry key value, rest)

/-- Whether nothing but a comment follows on the line. -/
def endsHere (text : List Char) : Bool :=
  match passBlanks text with
  | [] => true
  | c :: _ => c = '\n' || c = '#'

/-- The expressions of a text after those in `done`, which has the last one first. -/
def readExpressions (done : List Expression) : Nat → List Char → Option (List Expression)
  | 0, _ => none
  | fuel + 1, text =>
    match passGaps false text with
    | [] => some done.reverse
    | text =>
      match readExpression fuel text with
      | none => none
      | some (expression, rest) =>
        if endsHere rest then readExpressions (expression :: done) fuel rest else none

/-- The expressions of a text in bytes. -/
def expressionsOf (bytes : List UInt8) : Option (List Expression) :=
  match plainChars [] (decodeUtf8 (withoutMark bytes)) with
  | none => none
  | some text => readExpressions [] (3 * text.length + 8) text

end Octet.Toml
