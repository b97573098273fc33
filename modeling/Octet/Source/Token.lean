import Octet.Source.Diagnostic

/-! # Tokens of a source text

A source is read from left to right with one symbol of look-ahead: the symbol
after a token is read while the token is, so what is wrong with that symbol is
reported at the token and marks the token as flagged. Between tokens a wrong
symbol is reported at its own place. A source whose reader failed reports the
failure whenever its end is read.

A lexeme is the longest text that forms a token, with what is wrong in it and
the symbols after it; it knows nothing of places.
-/

namespace Octet

/-- A text to assemble. -/
structure Source where
  /-- What could be read of it. -/
  symbols : List Symbol
  /-- Why it could not be read to its end, if so. -/
  failure : Option String
  deriving DecidableEq, Repr

/-- The source with the given bytes. -/
def Source.ofBytes (bytes : List UInt8) (failure : Option String) : Source :=
  ⟨decodeUtf8 bytes, failure⟩

/-- The classes of tokens. -/
inductive TokenKind where
  | identifier
  | integer
  | character
  /-- A symbol that is a token of its own. -/
  | single (c : Char)
  deriving DecidableEq, Repr

/-- A token of a source. -/
structure Token where
  kind : TokenKind
  text : List Symbol
  place : Place
  /-- Whether a problem was reported while the token was read. -/
  flagged : Bool
  deriving DecidableEq, Repr

/-- A token without its place: its text, what was wrong while it was read, and what follows. -/
structure Lexeme where
  kind : TokenKind
  text : List Symbol
  problems : List Problem
  rest : List Symbol
  deriving DecidableEq, Repr

/-- Symbols that separate tokens. -/
def isBlank : Symbol → Bool
  | .char c => c == ' ' || c == '\t' || c == '\r'
  | .stray _ _ => false

/-- Symbols that a name can start with. -/
def startsName : Symbol → Bool
  | .char c => c == '_' || c == '.' || isLetter c
  | .stray _ _ => false

/-- Symbols that a name can go on with. -/
def continuesName : Symbol → Bool
  | .char c => c == '_' || c == '.' || isLetter c || isDecimalDigit c
  | .stray _ _ => false

/-- What is wrong with the end of the source. -/
def endProblems (failure : Option String) : List Problem := (failure.map .unreadable).toList

/-- What is wrong with the first of the symbols when it is read. A character that the end of the
source cut off is noticed twice: the source ends in it, and its first byte stands alone. -/
def readProblems (failure : Option String) : List Symbol → List Problem
  | [] => endProblems failure
  | .stray _ cut :: _ => (if cut then endProblems failure else []) ++ [.invalidEncoding]
  | .char c :: _ => if c = '\x00' then [.nulCharacter] else []

/-- What is wrong with the first of the symbols when it is read between tokens: the end of the
source is noticed at the symbol before it, at `previous`, and all else at the symbol itself. -/
def readNotices (failure : Option String) (previous place : Place) (symbols : List Symbol) :
    List Notice :=
  (readProblems failure symbols).map fun problem =>
    match problem with
    | .unreadable _ => ⟨previous, problem⟩
    | _ => ⟨place, problem⟩

/-! ### Integers -/

/-- The digits at the start of the symbols, as far as a literal in the given base can go. Any
decimal digit belongs to the literal, also one that its base does not have. -/
def digitSpan (radix : Radix) (symbols : List Symbol) : List Symbol :=
  symbols.takeWhile fun
    | .char c => c == '_' || (if radix = .hexadecimal then isHexDigit c else c.isDigit)
    | .stray _ _ => false

/-- The first digit that a base does not have. -/
def firstBadDigit? (radix : Radix) (digits : List Char) : Option Char :=
  if radix = .hexadecimal then none
  else digits.find? fun c => c != '_' && radix.base ≤ c.toNat - '0'.toNat

/-- The base of an integer that starts with `first`, the symbols after `first` that name the base,
and whether a digit has been seen so far. -/
def integerRadix (first : Char) (rest : List Symbol) : Radix × List Symbol × Bool :=
  if first = '0' then
    match rest with
    | .char letter :: _ =>
      match Radix.ofLetter? letter with
      | some radix => (radix, [.char letter], false)
      | none => (.octal, [], true)
    | _ => (.octal, [], true)
  else (.decimal, [], true)

/-- The integer at the start of the symbols, the first of which is the digit `first`. -/
def integerLexeme (failure : Option String) (first : Char) (rest : List Symbol) : Lexeme :=
  let (radix, mark, hasDigit) := integerRadix first rest
  let digits := digitSpan radix (rest.drop mark.length)
  let text := .char first :: mark ++ digits
  let rest := rest.drop (mark.length + digits.length)
  let digitChars := digits.map Symbol.toChar
  let problems :=
    readProblems failure rest
      ++ (if hasDigit || digitChars.any (· != '_') then [] else [.noDigits radix])
      ++ ((firstBadDigit? radix digitChars).map (Problem.invalidDigit · radix)).toList
      ++ (if literalSeparatorsFit (text.map Symbol.toChar) then [] else [.misplacedSeparator])
  ⟨.integer, text, problems, rest⟩

/-! ### Character literals -/

/-- How far a character literal has been read. -/
structure LiteralReading where
  /-- The number of symbols read and passed. -/
  taken : Nat
  problems : List Problem
  /-- The symbols from the current one on. -/
  rest : List Symbol

namespace LiteralReading

/-- Passes the current symbol and reads the one after it. -/
def advance (failure : Option String) (reading : LiteralReading) : LiteralReading :=
  match reading.rest with
  | [] => { reading with problems := reading.problems ++ endProblems failure }
  | _ :: rest => ⟨reading.taken + 1, reading.problems ++ readProblems failure rest, rest⟩

/-- Notes a problem. -/
def report (reading : LiteralReading) (problem : Problem) : LiteralReading :=
  { reading with problems := reading.problems ++ [problem] }

/-- Passes the digits of an escape, of which there have to be `count`. -/
def escapeDigits (failure : Option String) (isDigit : Char → Bool) :
    Nat → LiteralReading → LiteralReading
  | 0, reading => reading
  | count + 1, reading =>
    match reading.rest with
    | .char c :: _ =>
      if isDigit c then escapeDigits failure isDigit count (reading.advance failure)
      else reading.report .badEscape
    | _ => reading.report .badEscape

/-- Whether a character is a digit in base eight. -/
def isOctalDigit (c : Char) : Bool := '0' ≤ c && c ≤ '7'

/-- Passes an escape, whose backslash has been passed. -/
def escape (failure : Option String) (reading : LiteralReading) : LiteralReading :=
  match reading.rest with
  | .char c :: _ =>
    if c ∈ ['a', 'b', 'f', 'n', 'r', 't', 'v', '\\', '\''] then reading.advance failure
    else if isOctalDigit c then reading.escapeDigits failure isOctalDigit 3
    else if c = 'x' then (reading.advance failure).escapeDigits failure isHexDigit 2
    else if c = 'u' then (reading.advance failure).escapeDigits failure isHexDigit 4
    else if c = 'U' then (reading.advance failure).escapeDigits failure isHexDigit 8
    else reading.report .badEscape
  | _ => reading.report .badEscape

theorem length_advance (failure : Option String) (reading : LiteralReading) :
    (reading.advance failure).rest.length ≤ reading.rest.length := by
  unfold advance
  split <;> simp_all

theorem length_escapeDigits (failure : Option String) (isDigit : Char → Bool) (count : Nat)
    (reading : LiteralReading) :
    (reading.escapeDigits failure isDigit count).rest.length ≤ reading.rest.length := by
  induction count generalizing reading with
  | zero => exact Nat.le_refl _
  | succ count ih =>
      unfold escapeDigits
      split
      · split
        · exact Nat.le_trans (ih _) (length_advance failure reading)
        · exact Nat.le_refl _
      · exact Nat.le_refl _

theorem length_escape (failure : Option String) (reading : LiteralReading) :
    (reading.escape failure).rest.length ≤ reading.rest.length := by
  have hadvance := length_advance failure reading
  unfold escape
  split
  · repeat' split
    · exact hadvance
    · exact length_escapeDigits failure _ _ _
    · exact Nat.le_trans (length_escapeDigits failure _ _ _) hadvance
    · exact Nat.le_trans (length_escapeDigits failure _ _ _) hadvance
    · exact Nat.le_trans (length_escapeDigits failure _ _ _) hadvance
    · exact Nat.le_refl _
  · exact Nat.le_refl _

/-- Passes the elements of a literal up to its closing quote, after `count` of them. Returns their
number; the closing quote, or the line break that ends a literal without one, is still the
current symbol. -/
def elements (failure : Option String) (count : Nat) (reading : LiteralReading) :
    Nat × LiteralReading :=
  match _hrest : reading.rest with
  | [] => (count, reading.report .unterminatedLiteral)
  | symbol :: _ =>
    if symbol = .char '\'' then (count, reading)
    else if symbol = .char '\n' then (count, reading.report .unterminatedLiteral)
    else if symbol = .char '\\' then
      elements failure (count + 1) ((reading.advance failure).escape failure)
    else elements failure (count + 1) (reading.advance failure)
termination_by reading.rest.length
decreasing_by
  · have hescape := length_escape failure (reading.advance failure)
    have hadvance : (reading.advance failure).rest.length < reading.rest.length := by
      simp [advance, _hrest]
    omega
  · simp [advance, _hrest]

theorem length_elements (failure : Option String) (count : Nat) (reading : LiteralReading) :
    (reading.elements failure count).2.rest.length ≤ reading.rest.length := by
  fun_induction elements failure count reading with
  | case1 => exact Nat.le_refl _
  | case2 => exact Nat.le_refl _
  | case3 => exact Nat.le_refl _
  | case4 _ reading _ _ _ _ ih =>
      exact Nat.le_trans ih
        (Nat.le_trans (length_escape failure _) (length_advance failure reading))
  | case5 _ reading _ _ _ _ _ _ ih => exact Nat.le_trans ih (length_advance failure reading)

end LiteralReading

/-- The character literal at the start of the symbols; `rest` follows its opening quote. A literal
without a closing quote takes the line break that ends it. -/
def characterLexeme (failure : Option String) (rest : List Symbol) : Lexeme :=
  let opened : LiteralReading := ⟨1, readProblems failure rest, rest⟩
  let (count, reading) := opened.elements failure 0
  let reading := if count = 1 then reading else reading.report .notOneCharacter
  let reading := reading.advance failure
  ⟨.character, (.char '\'' :: rest).take reading.taken, reading.problems, reading.rest⟩

/-! ### Any token -/

/-- The token that starts with `first`. -/
def lexeme (failure : Option String) (first : Symbol) (rest : List Symbol) : Lexeme :=
  if startsName first then
    let tail := rest.takeWhile continuesName
    let rest := rest.dropWhile continuesName
    ⟨.identifier, first :: tail, readProblems failure rest, rest⟩
  else
    match first with
    | .char c =>
      if c.isDigit then integerLexeme failure c rest
      else if c = '\'' then characterLexeme failure rest
      else ⟨.single c, [first], readProblems failure rest, rest⟩
    | .stray _ _ => ⟨.single first.toChar, [first], readProblems failure rest, rest⟩

/-- What is behind a lexeme is no longer than what is behind its first symbol. -/
theorem length_lexeme (failure : Option String) (first : Symbol) (rest : List Symbol) :
    (lexeme failure first rest).rest.length ≤ rest.length := by
  unfold lexeme
  split
  · exact (List.dropWhile_sublist _).length_le
  · split
    · split
      · simp [integerLexeme]
      · split
        · simp only [characterLexeme]
          refine Nat.le_trans (LiteralReading.length_advance failure _) ?_
          split
          · exact LiteralReading.length_elements failure 0 _
          · exact LiteralReading.length_elements failure 0 _
        · exact Nat.le_refl _
    · exact Nat.le_refl _

end Octet
