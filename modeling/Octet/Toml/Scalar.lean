import Octet.Text.Numeral

/-! # Scalars of configuration text

Numbers, dates and quoted texts in TOML. A number or date is first cut off by the
characters it may consist of, and then checked as a whole. Of floating-point
numbers and dates only their validity matters here.
-/

namespace Octet.Toml

/-- A value without parts. -/
inductive Scalar where
  | integer (value : Int)
  | float
  | boolean (value : Bool)
  | text
  | datetime
  deriving DecidableEq, Repr

/-! ### Numbers -/

/-- Whether each underscore follows a digit and the text ends with a digit; the digits of base
sixteen count. -/
def underscoresFit (afterDigit : Bool) : List Char → Bool
  | [] => afterDigit
  | c :: rest => (c != '_' || afterDigit) && underscoresFit (isHexDigit c) rest

/-- Whether a number starts with a zero that stands before another digit. -/
def hasLeadingZero : List Char → Bool
  | '0' :: next :: _ => next ∉ ['b', 'o', 'x']
  | sign :: '0' :: _ :: _ => sign = '+' || sign = '-'
  | _ => false

/-- The integer that a text stands for. -/
def integerOf (text : List Char) : Option Scalar :=
  if !underscoresFit false text || hasLeadingZero text then none
  else
    match readSignedNumeral text with
    | .ok value => some (.integer value)
    | .error _ => none

/-- Whether each point of a number stands before a digit. -/
def pointsFit : List Char → Bool
  | [] => true
  | '.' :: rest => (match rest with | c :: _ => c.isDigit | [] => false) && pointsFit rest
  | _ :: rest => pointsFit rest

/-- The parts of a number between its points and exponent marks, without empty ones. -/
def floatParts (text : List Char) : List (List Char) :=
  (text.splitOnP fun c => c = '.' || c = 'e' || c = 'E').filter (!·.isEmpty)

/-- The number that decimal digits make. -/
def decimalValue (digits : List Char) : Nat :=
  digits.foldl (fun value c => value * 10 + (c.toNat - '0'.toNat)) 0

/-- Whether a number with the given significant digits and decimal exponent rounds to more than the
largest floating-point number of 64 bits. -/
def overflowsFloat (digits : List Char) (exponent : Int) : Bool :=
  let digits := digits.dropWhile (· = '0')
  if digits.isEmpty then false
  else
    let magnitude := exponent + digits.length
    if magnitude < 300 then false
    else if 400 < magnitude then true
    else
      let value := decimalValue digits
      let bound := Nat.pow 2 1024 - Nat.pow 2 970
      if exponent < 0 then bound * Nat.pow 10 exponent.natAbs ≤ value
      else bound ≤ value * Nat.pow 10 exponent.natAbs

/-- The number from which on further digits of an exponent do not count. -/
def exponentBound : Nat := 10000

/-- The number that the digits of an exponent make. -/
def exponentValue (digits : List Char) : Nat :=
  digits.foldl (fun value c =>
    if value < exponentBound then value * 10 + (c.toNat - '0'.toNat) else value) 0

/-- The exponent that a text stands for, zero if there is none; none if it is no number. -/
def exponentOf : List Char → Option Int
  | [] => some 0
  | _ :: rest =>
    let (negative, digits) :=
      match rest with
      | '+' :: digits => (false, digits)
      | '-' :: digits => (true, digits)
      | digits => (false, digits)
    if digits.isEmpty || !digits.all Char.isDigit then none
    else some (if negative then -(exponentValue digits) else exponentValue digits)

/-- Whether a text without underscores and sign is a number with digits before and after its point,
an exponent that is a number, and a value that is not too large. -/
def isFloatText (text : List Char) : Bool :=
  let whole := text.takeWhile Char.isDigit
  let rest := text.dropWhile Char.isDigit
  let (fraction, rest) :=
    match rest with
    | '.' :: rest => (rest.takeWhile Char.isDigit, rest.dropWhile Char.isDigit)
    | rest => ([], rest)
  let marked := match rest with | [] => true | c :: _ => c = 'e' || c = 'E'
  match exponentOf rest with
  | some exponent =>
    !whole.isEmpty && marked && !overflowsFloat (whole ++ fraction) (exponent - fraction.length)
  | none => false

/-- The floating-point number that a text stands for. -/
def floatOf (text : List Char) : Option Scalar :=
  let parts := floatParts text
  let plain := text.filter (· != '_')
  let unsigned := match plain with | '+' :: rest => rest | '-' :: rest => rest | rest => rest
  if parts.all (underscoresFit false) && !(parts.head?.any hasLeadingZero) && pointsFit text
      && isFloatText unsigned then some .float
  else none

/-! ### Dates and times -/

/-- Passes a character. -/
def expect (c : Char) : List Char → Option (List Char)
  | first :: rest => if first = c then some rest else none
  | [] => none

/-- The number of days of a month. -/
def daysInMonth (year month : Nat) : Nat :=
  if month = 2 then
    if year % 4 = 0 && (year % 100 != 0 || year % 400 = 0) then 29 else 28
  else if month ∈ [4, 6, 9, 11] then 30
  else 31

/-- Passes a date. -/
def passDate (text : List Char) : Option (List Char) := do
  let (year, rest) ← fixedDigits 10 0 4 text
  let (month, rest) ← fixedDigits 10 0 2 (← expect '-' rest)
  let (day, rest) ← fixedDigits 10 0 2 (← expect '-' rest)
  if 1 ≤ month && month ≤ 12 && 1 ≤ day && day ≤ daysInMonth year month then some rest else none

/-- Passes a time of day, whose seconds may be left out, and a fraction of the seconds. -/
def passTime (text : List Char) : Option (List Char) := do
  let (hour, rest) ← fixedDigits 10 0 2 text
  let (minute, rest) ← fixedDigits 10 0 2 (← expect ':' rest)
  if 24 ≤ hour || 60 ≤ minute then none
  else
    match rest with
    | ':' :: rest =>
      let (second, rest) ← fixedDigits 10 0 2 rest
      if 60 ≤ second then none
      else
        match rest with
        | '.' :: digit :: rest =>
          if digit.isDigit then some (rest.dropWhile Char.isDigit) else none
        | rest => some rest
    | rest => some rest

/-- Whether a text is the offset of a time zone. -/
def isZone : List Char → Bool
  | ['Z'] => true
  | sign :: rest =>
    (sign = '+' || sign = '-') &&
      (match fixedDigits 10 0 2 rest with
      | some (hours, ':' :: rest) =>
        match fixedDigits 10 0 2 rest with
        | some (minutes, []) => hours ≤ 24 && minutes ≤ 60
        | _ => false
      | _ => false)
  | [] => false

/-- A character of a date in its one spelling: small letters count as capital ones, and a blank
between date and time as the letter between them. -/
def dateChar (c : Char) : Char :=
  match c with
  | 't' | ' ' => 'T'
  | 'z' => 'Z'
  | c => c

/-- The date or time that a text stands for: a date, a time, or both with or without a zone. -/
def datetimeOf (text : List Char) : Option Scalar :=
  let text := text.map dateChar
  let whole :=
    match passDate text with
    | some [] => true
    | some ('T' :: rest) =>
      match passTime rest with
      | some rest => rest.isEmpty || isZone rest
      | none => false
    | _ => passTime text == some []
  if whole then some .datetime else none

/-! ### Cutting off numbers and dates -/

/-- Characters of floating-point numbers. -/
def inFloat (c : Char) : Bool := c.isDigit || c ∈ ['_', '.', '-', '+', 'e', 'E']

/-- Characters of dates and times. -/
def inDate (c : Char) : Bool := c.isDigit || c ∈ ['-', ':', 'T', 't', ' ', '.', 'Z', 'z', '+']

/-- Digits in a base, and underscores. -/
def inInteger (radix : Radix) (c : Char) : Bool :=
  c = '_' || (match digitValue? c with | some digit => digit < radix.base | none => false)

/-- A text cut off where `within` ends, as the scalar that `read` makes of it. -/
def cut (within : Char → Bool) (read : List Char → Option Scalar) (text : List Char) :
    Option (Scalar × List Char) :=
  (read (text.takeWhile within)).map (·, text.dropWhile within)

/-- The text without blanks at its end. -/
def trimEnd (text : List Char) : List Char := (text.reverse.dropWhile (· = ' ')).reverse

/-- A decimal number, with or without a sign. -/
def decimalNumber (text : List Char) : Option (Scalar × List Char) :=
  let unsigned := match text with | '+' :: rest => rest | '-' :: rest => rest | rest => rest
  match unsigned.dropWhile (inInteger .decimal) with
  | c :: _ =>
    if c = '.' || c = 'e' || c = 'E' then cut inFloat floatOf text
    else cut (fun c => inInteger .decimal c || c = '+' || c = '-') integerOf text
  | [] => integerOf text |>.map (·, [])

/-- A number or date that starts with a digit. A zero and a letter start a number in another base,
which has to go on with a digit of that base. -/
def numberOrDate (text : List Char) : Option (Scalar × List Char) :=
  let based :=
    match text with
    | '0' :: letter :: digit :: _ =>
      if letter ∈ ['b', 'o', 'x'] then (Radix.ofLetter? letter).map (·, digit) else none
    | _ => none
  match based with
  | some (radix, digit) =>
    if digit != '_' && inInteger radix digit then
      (integerOf (text.take 2 ++ (text.drop 2).takeWhile (inInteger radix))).map
        (·, (text.drop 2).dropWhile (inInteger radix))
    else none
  | none =>
    match text.dropWhile Char.isDigit with
    | c :: _ =>
      if (c = '-' || c = ':') && 2 ≤ (text.takeWhile Char.isDigit).length then
        cut inDate (fun text => datetimeOf (trimEnd text)) text
      else if c = '-' || c = ':' then
        if text.head? = some '0' then (integerOf ['0']).map (·, text.drop 1)
        else cut inDate (fun text => datetimeOf (trimEnd text)) text
      else decimalNumber text
    | [] => decimalNumber text

/-- A number that starts with a sign; only decimal numbers, infinity and not-a-number have one. -/
def signedNumber (text : List Char) : Option (Scalar × List Char) :=
  match text with
  | _ :: 'i' :: 'n' :: 'f' :: rest => some (.float, rest)
  | _ :: 'n' :: 'a' :: 'n' :: rest => some (.float, rest)
  | _ :: first :: _ => if first.isDigit then decimalNumber text else none
  | _ => none

/-! ### Quoted texts -/

/-- The character of a code written with `count` digits in base sixteen, and the text after it. -/
def escapedCode (count : Nat) (text : List Char) : Option (Char × List Char) :=
  match fixedDigits 16 0 count text with
  | some (code, rest) => if isCharacterCode code then some (Char.ofNat code, rest) else none
  | none => none

/-- The character that an escape stands for, and the text after it; the backslash comes before. -/
def escapedChar : List Char → Option (Char × List Char)
  | 'b' :: rest => some ('\x08', rest)
  | 't' :: rest => some ('\t', rest)
  | 'n' :: rest => some ('\n', rest)
  | 'f' :: rest => some ('\x0c', rest)
  | 'r' :: rest => some ('\r', rest)
  | 'e' :: rest => some ('\x1b', rest)
  | '"' :: rest => some ('"', rest)
  | '\\' :: rest => some ('\\', rest)
  | 'x' :: rest => escapedCode 2 rest
  | 'u' :: rest => escapedCode 4 rest
  | 'U' :: rest => escapedCode 8 rest
  | _ => none

/-- A text in double quotes, after its opening quote; `done` has the characters so far, the last one
first. -/
def basicText (done : List Char) : Nat → List Char → Option (List Char × List Char)
  | 0, _ => none
  | _ + 1, [] => none
  | _ + 1, '"' :: rest => some (done.reverse, rest)
  | _ + 1, '\n' :: _ => none
  | fuel + 1, '\\' :: rest =>
    match escapedChar rest with
    | some (c, rest) => basicText (c :: done) fuel rest
    | none => none
  | fuel + 1, c :: rest => basicText (c :: done) fuel rest

/-- A text in single quotes, after its opening quote: it has no escapes. -/
def literalText (text : List Char) : Option (List Char × List Char) :=
  let inside := text.takeWhile fun c => c != '\'' && c != '\n'
  match text.drop inside.length with
  | '\'' :: rest => some (inside, rest)
  | _ => none

/-- Whether a backslash before this text ends a line: only blanks stand between it and a line
break. -/
def endsLine (text : List Char) : Bool :=
  (text.dropWhile fun c => c = ' ' || c = '\t').head? == some '\n'

/-- Passes a text of several lines up to its three closing quotes. Two more quotes may stand before
them, and a third right after a backslash, which `slashed` tells of. Escapes are read where
`escapes` says so. -/
def passLines (quote : Char) (escapes : Bool) : Bool → Nat → List Char → Option (List Char)
  | _, 0, _ => none
  | _, _ + 1, [] => none
  | slashed, fuel + 1, c :: rest =>
    if c = quote then
      let count := ((c :: rest).takeWhile (· = quote)).length
      if count < 3 then passLines quote escapes false fuel ((c :: rest).drop count)
      else if count ≤ 5 || (slashed && count = 6) then some ((c :: rest).drop count)
      else none
    else if escapes && c = '\\' then
      if endsLine rest then passLines quote escapes false fuel rest
      else
        match escapedChar rest with
        | some (escaped, rest) => passLines quote escapes (escaped = '\\') fuel rest
        | none => none
    else passLines quote escapes false fuel rest

end Octet.Toml
