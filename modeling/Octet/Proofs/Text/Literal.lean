import Mathlib.Data.List.Forall2
import Mathlib.Data.Nat.Digits.Defs
import Octet.Proofs.Text.Decimal
import Octet.Source.Literal

/-! # Literals and what they stand for

Integer and character literals by their grammar, each with the number it stands for in
positional notation. Readers of literals meet the grammar: an integer is read as its
number or found to be too large, whatever its length and base, and a character literal
is read as its code. The one exception are escapes for single bytes: beyond ASCII they
are not read as the byte but as the replacement character.
-/

namespace Octet

/-! ### Digits -/

/-- A digit of a base and its value; letters of either case follow nine. -/
def IsDigit (base : Nat) (c : Char) (value : Nat) : Prop :=
  value < base ∧ (c = Nat.digitChar value ∨ c = (Nat.digitChar value).toUpper)

/-- The number that digits make, given by their values. -/
def positional (base : Nat) (values : List Nat) : Nat := Nat.ofDigits base values.reverse

theorem positional_eq_foldl (base : Nat) (values : List Nat) :
    positional base values = values.foldl (fun value digit => value * base + digit) 0 := by
  rw [positional, Nat.ofDigits_eq_foldr, List.foldr_reverse]
  simp only [Nat.cast_id, Nat.add_comm, Nat.mul_comm]

/-- A character is a digit in a base exactly if it has a value below the base. -/
theorem isDigit_iff {base value : Nat} {c : Char} (hbase : base ≤ 16) :
    IsDigit base c value ↔ digitValue? c = some value ∧ value < base := by
  constructor
  · rintro ⟨hlt, hdigit⟩
    have hall : ∀ value < 16, digitValue? (Nat.digitChar value) = some value ∧
        digitValue? (Nat.digitChar value).toUpper = some value := by decide
    obtain ⟨hlower, hupper⟩ := hall value (by omega)
    rcases hdigit with rfl | rfl
    · exact ⟨hlower, hlt⟩
    · exact ⟨hupper, hlt⟩
  · rintro ⟨hvalue, hlt⟩
    have hsmall : ∀ value < 10, (Nat.digitChar value).toNat = 48 + value := by decide
    have hletters : ∀ value < 16, 10 ≤ value → (Nat.digitChar value).toNat = 87 + value ∧
        (Nat.digitChar value).toUpper.toNat = 55 + value := by decide
    refine ⟨hlt, ?_⟩
    rw [← Char.toNat_inj, ← Char.toNat_inj]
    unfold digitValue? at hvalue
    split at hvalue
    next hdigit =>
      have hrange : 48 ≤ c.toNat ∧ c.toNat ≤ 57 := Char.isDigit_iff_toNat.mp hdigit
      have hcode : c.toNat - 48 = value := Option.some.inj hvalue
      have := hsmall value (by omega)
      omega
    next =>
      split at hvalue
      next hrange =>
        have hbounds : 97 ≤ c.toNat ∧ c.toNat ≤ 122 := hrange
        have hcode : c.toNat - 97 + 10 = value := Option.some.inj hvalue
        have := hletters value (by omega) (by omega)
        omega
      next =>
        split at hvalue
        next hrange =>
          have hbounds : 65 ≤ c.toNat ∧ c.toNat ≤ 90 := hrange
          have hcode : c.toNat - 65 + 10 = value := Option.some.inj hvalue
          have := hletters value (by omega) (by omega)
          omega
        next => cases hvalue

theorem IsDigit.isHexDigit {base value : Nat} {c : Char} (hdigit : IsDigit base c value)
    (hbase : base ≤ 16) : isHexDigit c = true ∧ c ≠ '_' := by
  have hall : ∀ value < 16, Octet.isHexDigit (Nat.digitChar value) = true ∧
      Octet.isHexDigit (Nat.digitChar value).toUpper = true := by decide
  obtain ⟨hlower, hupper⟩ := hall value (Nat.lt_of_lt_of_le hdigit.1 hbase)
  have hhex : Octet.isHexDigit c = true := by
    rcases hdigit.2 with rfl | rfl
    · exact hlower
    · exact hupper
  refine ⟨hhex, ?_⟩
  rintro rfl
  cases hhex

theorem exists_isDigit_of_isHexDigit {c : Char} (hhex : isHexDigit c = true) :
    ∃ value, IsDigit 16 c value := by
  simp only [isHexDigit, Bool.or_eq_true, Bool.and_eq_true, decide_eq_true_eq] at hhex
  have hdigit : ∃ value, digitValue? c = some value ∧ value < 16 := by
    unfold digitValue?
    rcases hhex with (hdigit | hlower) | hupper
    · rw [if_pos hdigit]
      exact ⟨_, rfl, Nat.lt_trans (digitValue?_of_isDigit hdigit).2 (by decide)⟩
    · have hbounds : 97 ≤ c.toNat ∧ c.toNat ≤ 102 := hlower
      have hnot : ¬ c.isDigit = true := fun hdigit => by
        have hrange : 48 ≤ c.toNat ∧ c.toNat ≤ 57 := Char.isDigit_iff_toNat.mp hdigit
        omega
      have hletter : 'a' ≤ c ∧ c ≤ 'z' := ⟨hlower.1, show c.toNat ≤ 122 by omega⟩
      rw [if_neg hnot, if_pos hletter]
      exact ⟨_, rfl, show c.toNat - 97 + 10 < 16 by omega⟩
    · have hbounds : 65 ≤ c.toNat ∧ c.toNat ≤ 70 := hupper
      have hnot : ¬ c.isDigit = true := fun hdigit => by
        have hrange : 48 ≤ c.toNat ∧ c.toNat ≤ 57 := Char.isDigit_iff_toNat.mp hdigit
        omega
      have hlower : ¬ ('a' ≤ c ∧ c ≤ 'z') := fun hlower => by
        have : 97 ≤ c.toNat := hlower.1
        omega
      have hletter : 'A' ≤ c ∧ c ≤ 'Z' := ⟨hupper.1, show c.toNat ≤ 90 by omega⟩
      rw [if_neg hnot, if_neg hlower, if_pos hletter]
      exact ⟨_, rfl, show c.toNat - 65 + 10 < 16 by omega⟩
  obtain ⟨value, hvalue⟩ := hdigit
  exact ⟨value, (isDigit_iff (Nat.le_refl 16)).mpr hvalue⟩

/-! ### Integers -/

/-- Digits of a base, each with at most one underscore before it, and their values. -/
inductive DigitRun (base : Nat) : List Char → List Nat → Prop
  | done : DigitRun base [] []
  | digit {c : Char} {rest : List Char} {value : Nat} {values : List Nat}
      (hdigit : IsDigit base c value) (hrest : DigitRun base rest values) :
      DigitRun base (c :: rest) (value :: values)
  | separated {c : Char} {rest : List Char} {value : Nat} {values : List Nat}
      (hdigit : IsDigit base c value) (hrest : DigitRun base rest values) :
      DigitRun base ('_' :: c :: rest) (value :: values)

/-- Integer literals and the numbers they stand for. -/
inductive IntegerLiteral : List Char → Nat → Prop
  | decimal {first : Char} {rest : List Char} {value : Nat} {values : List Nat}
      (hfirst : IsDigit 10 first value) (hzero : first ≠ '0') (hrest : DigitRun 10 rest values) :
      IntegerLiteral (first :: rest) (positional 10 (value :: values))
  /-- A zero alone, or before digits of base eight. -/
  | octal {rest : List Char} {values : List Nat} (hrest : DigitRun 8 rest values) :
      IntegerLiteral ('0' :: rest) (positional 8 values)
  /-- A zero and the letter of a base before digits of that base. -/
  | marked {letter : Char} {radix : Radix} {rest : List Char} {values : List Nat}
      (hletter : Radix.ofLetter? letter = some radix) (hrest : DigitRun radix.base rest values)
      (hsome : values ≠ []) : IntegerLiteral ('0' :: letter :: rest) (positional radix.base values)

theorem Radix.base_bounds (radix : Radix) : 2 ≤ radix.base ∧ radix.base ≤ 16 := by
  cases radix <;> decide

/-- No digit of base eight is taken for the letter of a base. -/
theorem IsDigit.ofLetter? {c : Char} {value : Nat} (hdigit : IsDigit 8 c value) :
    Radix.ofLetter? c = none := by
  have hall : ∀ value < 8, Radix.ofLetter? (Nat.digitChar value) = none ∧
      Radix.ofLetter? (Nat.digitChar value).toUpper = none := by decide
  obtain ⟨hlower, hupper⟩ := hall value hdigit.1
  rcases hdigit.2 with rfl | rfl
  · exact hlower
  · exact hupper

/-- The number, unless it is too large. -/
def upTo (bound number : Nat) : Except NumeralProblem Nat :=
  if number ≤ bound then .ok number else .error .tooLarge

theorem separatorsFit_cons {c : Char} (hother : c ≠ '_') (afterDigit : Bool) (rest : List Char) :
    separatorsFit afterDigit (c :: rest) = separatorsFit (isHexDigit c) rest := by
  rw [separatorsFit]
  exact hother

/-- Digits with underscores in their places are a run. -/
theorem exists_digitRun {base : Nat} (hbase : base ≤ 16) {text : List Char}
    (hdigits : ∀ c ∈ text, c = '_' ∨ ∃ value, IsDigit base c value)
    (hfit : separatorsFit true text = true) : ∃ values, DigitRun base text values := by
  match text with
  | [] => exact ⟨[], .done⟩
  | c :: rest =>
      by_cases hunderscore : c = '_'
      · subst hunderscore
        cases rest with
        | nil => cases hfit
        | cons c rest =>
            simp only [separatorsFit, Bool.true_and, Bool.and_eq_true, bne_iff_ne, ne_eq] at hfit
            obtain ⟨⟨hother, hhex⟩, hfit⟩ := hfit
            rw [separatorsFit_cons hother, hhex] at hfit
            simp only [List.forall_mem_cons] at hdigits
            obtain ⟨-, hfirst, hrest⟩ := hdigits
            obtain ⟨value, hdigit⟩ := hfirst.resolve_left hother
            obtain ⟨values, hrun⟩ := exists_digitRun hbase hrest hfit
            exact ⟨value :: values, .separated hdigit hrun⟩
      · rw [List.forall_mem_cons] at hdigits
        obtain ⟨value, hdigit⟩ := hdigits.1.resolve_left hunderscore
        rw [separatorsFit_cons hunderscore, (hdigit.isHexDigit hbase).1] at hfit
        obtain ⟨values, hrun⟩ := exists_digitRun hbase hdigits.2 hfit
        exact ⟨value :: values, .digit hdigit hrun⟩
termination_by text.length

namespace DigitRun

variable {base : Nat} {text : List Char} {values : List Nat}

/-- Separators fit in a run of digits. -/
theorem separatorsFit (hrun : DigitRun base text values) (hbase : base ≤ 16) :
    separatorsFit true text = true := by
  induction hrun with
  | done => rfl
  | digit hdigit _ ih =>
      obtain ⟨hhex, hother⟩ := hdigit.isHexDigit hbase
      rw [separatorsFit_cons hother, hhex, ih]
  | separated hdigit _ ih =>
      obtain ⟨hhex, hother⟩ := hdigit.isHexDigit hbase
      simp [Octet.separatorsFit, separatorsFit_cons hother, hhex, hother, ih]

theorem le_foldl (base start : Nat) (hbase : 1 ≤ base) (values : List Nat) :
    start ≤ values.foldl (fun value digit => value * base + digit) start := by
  induction values generalizing start with
  | nil => exact Nat.le_refl _
  | cons digit values ih =>
      have hgrows : start ≤ start * base + digit :=
        Nat.le_trans (Nat.le_mul_of_pos_right start hbase) (Nat.le_add_right _ _)
      exact Nat.le_trans hgrows (ih _)

/-- A digit is added up, unless the number gets too large. -/
theorem readDigits_cons {radix : Radix} {c : Char} {digit : Nat}
    (hdigit : IsDigit radix.base c digit) (bound start : Nat) (rest : List Char) :
    readDigits radix bound start (c :: rest) =
      if bound < start * radix.base + digit then .error .tooLarge
      else readDigits radix bound (start * radix.base + digit) rest := by
  obtain ⟨-, hle⟩ := radix.base_bounds
  obtain ⟨-, hother⟩ := hdigit.isHexDigit hle
  obtain ⟨hvalue, hlt⟩ := (isDigit_iff hle).mp hdigit
  rw [readDigits]
  · simp only [hvalue, if_neg (Nat.not_le.mpr hlt)]
  · exact hother

/-- A run is read as the number it makes behind the one before it, unless that is too large. -/
theorem readDigits {radix : Radix} (hrun : DigitRun radix.base text values) {bound start : Nat}
    (hle : start ≤ bound) :
    readDigits radix bound start text =
      upTo bound (values.foldl (fun value digit => value * radix.base + digit) start) := by
  have hnext {c : Char} {rest : List Char} {digit : Nat} {values : List Nat} {start : Nat}
      (hdigit : IsDigit radix.base c digit)
      (ih : ∀ {start : Nat}, start ≤ bound → Octet.readDigits radix bound start rest =
        upTo bound (values.foldl (fun value digit => value * radix.base + digit) start)) :
      Octet.readDigits radix bound start (c :: rest) =
        upTo bound ((digit :: values).foldl (fun value digit => value * radix.base + digit)
          start) := by
    rw [readDigits_cons hdigit, List.foldl_cons]
    split
    next hover =>
      -- the digits to come do not make the number smaller
      have hgrows := le_foldl radix.base (start * radix.base + digit)
        (Nat.le_of_succ_le radix.base_bounds.1) values
      exact (if_neg (by omega)).symm
    next hfits => exact ih (Nat.le_of_not_lt hfits)
  induction hrun generalizing start with
  | done => exact (if_pos hle).symm
  | digit hdigit _ ih => exact hnext hdigit ih
  | @separated c rest _ _ hdigit _ ih =>
      rw [show Octet.readDigits radix bound start ('_' :: c :: rest) =
        Octet.readDigits radix bound start (c :: rest) from rfl]
      exact hnext hdigit ih

/-- A run of digits is read as its value, if that is not too large. -/
theorem readDigits_zero {radix : Radix} (hrun : DigitRun radix.base text values) (bound : Nat) :
    Octet.readDigits radix bound 0 text = upTo bound (positional radix.base values) := by
  rw [positional_eq_foldl]
  exact hrun.readDigits (Nat.zero_le bound)

theorem ofLetter?_head (hrun : DigitRun 8 text values) :
    ∀ c ∈ text.head?, Radix.ofLetter? c = none := by
  cases hrun with
  | done => simp
  | separated => simp [Radix.ofLetter?]
  | digit hdigit => simpa using hdigit.ofLetter?

end DigitRun

namespace IntegerLiteral

variable {text : List Char} {value : Nat}

/-- The digits of a literal are found behind the mark of its base. -/
theorem exists_splitRadix (hliteral : IntegerLiteral text value) :
    text ≠ [] ∧ literalSeparatorsFit text = true ∧ ∃ radix digits values,
      splitRadix text = (radix, digits) ∧ DigitRun radix.base digits values ∧
        value = positional radix.base values := by
  cases hliteral with
  | @decimal first rest digit values hfirst hzero hrest =>
      obtain ⟨hhex, hother⟩ := hfirst.isHexDigit (by decide)
      refine ⟨List.cons_ne_nil _ _, ?_, .decimal, first :: rest, digit :: values, ?_,
        .digit hfirst hrest, rfl⟩
      · rw [literalSeparatorsFit, separatorsFit_cons hother, hhex]
        · exact hrest.separatorsFit (by decide)
        · intro _ _ hsame
          exact absurd (List.cons.inj hsame).1 hzero
      · unfold splitRadix
        split
        next hsame => exact absurd (List.cons.inj hsame).1 hzero
        next hsame => exact absurd (List.cons.inj hsame).1 hzero
        next => rfl
  | @octal rest values hrest =>
      have hfit := hrest.separatorsFit (by decide)
      have hletter := hrest.ofLetter?_head
      refine ⟨List.cons_ne_nil _ _, ?_, .octal, rest, values, ?_, hrest, rfl⟩
      · cases rest with
        | nil => rfl
        | cons c rest => simpa [literalSeparatorsFit, hletter c rfl] using hfit
      · match rest with
        | [] | [_] => rfl
        | c :: _ :: _ => simp [splitRadix, hletter c rfl]
  | @marked letter radix rest values hletter hrest hsome =>
      refine ⟨List.cons_ne_nil _ _, ?_, radix, rest, values, ?_, hrest, rfl⟩
      · simpa [literalSeparatorsFit, hletter] using hrest.separatorsFit radix.base_bounds.2
      · cases rest with
        | nil =>
            cases hrest
            exact absurd rfl hsome
        | cons c rest => simp [splitRadix, hletter]

/-- A literal is read as the number it stands for, unless that is too large. -/
theorem readNumeral (hliteral : IntegerLiteral text value) (bound : Nat) :
    readNumeral bound text = upTo bound value := by
  obtain ⟨hsome, hfit, radix, digits, values, hsplit, hrun, rfl⟩ := hliteral.exists_splitRadix
  have hempty : text.isEmpty = false := by simpa using hsome
  simp only [Octet.readNumeral, hempty, hsplit, hfit, hrun.readDigits_zero, Bool.false_eq_true,
    ↓reduceIte]
  by_cases hle : positional radix.base values ≤ bound
  · simp only [upTo, if_pos hle]
  · simp only [upTo, if_neg hle]

/-- A text is the literal of one integer at most. -/
theorem unique {other : Nat} (hliteral : IntegerLiteral text value)
    (hother : IntegerLiteral text other) : value = other := by
  have hread := hliteral.readNumeral (value + other)
  rw [hother.readNumeral, upTo, upTo, if_pos (Nat.le_add_left _ _),
    if_pos (Nat.le_add_right _ _)] at hread
  exact (Except.ok.inj hread).symm

end IntegerLiteral

/-! ### Characters -/

/-- As many digits of a base as are asked for, and the number they make. -/
def Digits (base count : Nat) (digits : List Char) (number : Nat) : Prop :=
  digits.length = count ∧
    ∃ values, List.Forall₂ (IsDigit base) digits values ∧ number = positional base values

/-- A number with so many digits is below that power of the base. -/
theorem Digits.lt {base count number : Nat} {digits : List Char}
    (hdigits : Digits base count digits number) (hbase : 1 < base) : number < base ^ count := by
  obtain ⟨rfl, values, hvalues, rfl⟩ := hdigits
  have hbelow : ∀ value ∈ values.reverse, value < base := by
    simp only [List.mem_reverse]
    induction hvalues with
    | nil => simp
    | cons hdigit _ ih => exact List.forall_mem_cons.mpr ⟨hdigit.1, ih⟩
  have hlt := Nat.ofDigits_lt_base_pow_length hbase hbelow
  rwa [List.length_reverse, ← hvalues.length_eq] at hlt

/-- The letters that stand for a character behind a backslash, and its code. -/
def letterEscapes : List (Char × Nat) :=
  [('a', 7), ('b', 8), ('f', 12), ('n', 10), ('r', 13), ('t', 9), ('v', 11), ('\\', 92), ('\'', 39)]

/-- What stands between the quotes of a literal for the character with a code. -/
inductive CodeElement : List Char → Nat → Prop
  | plain {c : Char} (hother : c ≠ '\'' ∧ c ≠ '\\' ∧ c ≠ '\n') : CodeElement [c] c.toNat
  | letter {c : Char} {code : Nat} (hletter : (c, code) ∈ letterEscapes) :
      CodeElement ['\\', c] code
  | short {digits : List Char} {code : Nat} (hdigits : Digits 16 4 digits code)
      (hcode : code.isValidChar) : CodeElement ('\\' :: 'u' :: digits) code
  | long {digits : List Char} {code : Nat} (hdigits : Digits 16 8 digits code)
      (hcode : code.isValidChar) : CodeElement ('\\' :: 'U' :: digits) code

/-- What stands between the quotes of a literal for a byte. -/
inductive ByteElement : List Char → Nat → Prop
  | hexadecimal {digits : List Char} {byte : Nat} (hdigits : Digits 16 2 digits byte) :
      ByteElement ('\\' :: 'x' :: digits) byte
  | octal {digits : List Char} {byte : Nat} (hdigits : Digits 8 3 digits byte)
      (hlt : byte < 256) : ByteElement ('\\' :: digits) byte

theorem ByteElement.lt {body : List Char} {byte : Nat} (hbyte : ByteElement body byte) :
    byte < 256 := by
  cases hbyte with
  | hexadecimal hdigits => exact hdigits.lt (by decide)
  | octal _ hlt => exact hlt

/-- What stands between the quotes of a literal is read as the character with a code. A byte beyond
ASCII is no character, and is read as the replacement character. -/
def ReadAs (body : List Char) (code : Nat) : Prop :=
  CodeElement body code ∨
    ∃ byte, ByteElement body byte ∧ code = if byte < 128 then byte else 0xFFFD

/-- A fixed number of digits is read exactly if they are all there. -/
theorem fixedDigits_eq_some_iff {base : Nat} (hbase : base ≤ 16) {start count number : Nat}
    {text rest : List Char} :
    fixedDigits base start count text = some (number, rest) ↔
      ∃ digits values, text = digits ++ rest ∧ digits.length = count ∧
        List.Forall₂ (IsDigit base) digits values ∧
        number = values.foldl (fun value digit => value * base + digit) start := by
  induction count generalizing start text with
  | zero =>
      constructor
      · intro hread
        obtain ⟨rfl, rfl⟩ := Prod.mk.inj (Option.some.inj hread)
        exact ⟨[], [], rfl, rfl, .nil, rfl⟩
      · rintro ⟨digits, values, rfl, hlength, hdigits, rfl⟩
        obtain rfl := List.length_eq_zero_iff.mp hlength
        cases hdigits
        rfl
  | succ count ih =>
      cases text with
      | nil =>
          refine iff_of_false (by simp [fixedDigits]) ?_
          rintro ⟨digits, values, hempty, hlength, -⟩
          obtain ⟨rfl, -⟩ := List.append_eq_nil_iff.mp hempty.symm
          cases hlength
      | cons c text =>
          constructor
          · intro hread
            simp only [fixedDigits] at hread
            split at hread
            next digit hdigit =>
              split at hread
              next hlt =>
                obtain ⟨digits, values, rfl, hlength, hdigits, hnumber⟩ := ih.mp hread
                exact ⟨c :: digits, digit :: values, rfl, by rw [List.length_cons, hlength],
                  .cons ((isDigit_iff hbase).mpr ⟨hdigit, hlt⟩) hdigits, hnumber⟩
              next => cases hread
            next => cases hread
          · rintro ⟨digits, values, htext, hlength, hdigits, hnumber⟩
            cases hdigits with
            | nil => cases hlength
            | cons hdigit hdigits =>
                obtain ⟨rfl, rfl⟩ := List.cons.inj htext
                obtain ⟨hvalue, hlt⟩ := (isDigit_iff hbase).mp hdigit
                simp only [fixedDigits, hvalue, if_pos hlt]
                exact ih.mpr ⟨_, _, rfl, by simpa using hlength, hdigits, hnumber⟩

theorem fixedDigits_zero_iff {base : Nat} (hbase : base ≤ 16) {count number : Nat}
    {text rest : List Char} :
    fixedDigits base 0 count text = some (number, rest) ↔
      ∃ digits, text = digits ++ rest ∧ Digits base count digits number := by
  rw [fixedDigits_eq_some_iff hbase]
  simp only [Digits, positional_eq_foldl]
  constructor
  · rintro ⟨digits, values, htext, hlength, hdigits, hnumber⟩
    exact ⟨digits, htext, hlength, values, hdigits, hnumber⟩
  · rintro ⟨digits, htext, hlength, values, hdigits, hnumber⟩
    exact ⟨digits, values, htext, hlength, hdigits, hnumber⟩

theorem isCharacterCode_iff {code : Nat} : isCharacterCode code = true ↔ code.isValidChar := by
  simp [isCharacterCode, Nat.isValidChar]

theorem Digits.fixedDigits {base count number : Nat} {digits : List Char}
    (hdigits : Digits base count digits number) (hbase : base ≤ 16) (rest : List Char) :
    fixedDigits base 0 count (digits ++ rest) = some (number, rest) :=
  (fixedDigits_zero_iff hbase).mpr ⟨digits, rfl, hdigits⟩

/-- The digits of a character are read exactly if they are all there and make the code of one. -/
theorem characterDigits_iff {count code : Nat} {text rest : List Char} :
    escapeCode?.characterDigits count text = some (code, rest) ↔
      (∃ digits, text = digits ++ rest ∧ Digits 16 count digits code) ∧ code.isValidChar := by
  rw [← fixedDigits_zero_iff (Nat.le_refl 16), ← isCharacterCode_iff]
  unfold escapeCode?.characterDigits
  cases fixedDigits 16 0 count text with
  | none => simp
  | some found =>
      obtain ⟨number, left⟩ := found
      simp only [Option.ite_none_right_eq_some, Option.some.injEq, Prod.mk.injEq]
      constructor
      · rintro ⟨hcode, rfl, rfl⟩
        exact ⟨⟨rfl, rfl⟩, hcode⟩
      · rintro ⟨⟨rfl, rfl⟩, hcode⟩
        exact ⟨hcode, rfl, rfl⟩

/-- An escape that starts with a digit is for a byte. -/
theorem escapeCode?_of_isDigit {c : Char} {value : Nat} (hdigit : IsDigit 8 c value)
    (rest : List Char) :
    escapeCode? (c :: rest) =
      match fixedDigits 8 0 3 (c :: rest) with
      | some (byte, rest) => if byte < 256 then some (byteCode byte, rest) else none
      | none => none := by
  obtain ⟨hlt, hchar⟩ := hdigit
  have hsame : ∀ value < 8, (Nat.digitChar value).toUpper = Nat.digitChar value := by decide
  rw [hsame value hlt, or_self] at hchar
  subst hchar
  match value, hlt with
  | 0, _ | 1, _ | 2, _ | 3, _ | 4, _ | 5, _ | 6, _ | 7, _ => rfl

/-- An escape is read as the code that it stands for, whatever comes behind it. -/
theorem escapeCode?_of_readAs {tail : List Char} {code : Nat} (hread : ReadAs ('\\' :: tail) code)
    (rest : List Char) : escapeCode? (tail ++ rest) = some (code, rest) := by
  rcases hread with hcode | ⟨byte, hbyte, rfl⟩
  · cases hcode with
    | plain hother => exact absurd rfl hother.2.1
    | letter hletter =>
        simp only [letterEscapes, List.mem_cons, Prod.mk.injEq, List.not_mem_nil, or_false]
          at hletter
        rcases hletter with ⟨rfl, rfl⟩ | ⟨rfl, rfl⟩ | ⟨rfl, rfl⟩ | ⟨rfl, rfl⟩ | ⟨rfl, rfl⟩ |
          ⟨rfl, rfl⟩ | ⟨rfl, rfl⟩ | ⟨rfl, rfl⟩ | ⟨rfl, rfl⟩ <;> rfl
    | short hdigits hvalid => exact characterDigits_iff.mpr ⟨⟨_, rfl, hdigits⟩, hvalid⟩
    | long hdigits hvalid => exact characterDigits_iff.mpr ⟨⟨_, rfl, hdigits⟩, hvalid⟩
  · cases hbyte with
    | hexadecimal hdigits =>
        rw [List.cons_append, escapeCode?, hdigits.fixedDigits (Nat.le_refl 16)]
        rfl
    | octal hdigits hlt =>
        have hfixed := hdigits.fixedDigits (by decide) rest
        obtain ⟨hlength, values, hall, -⟩ := hdigits
        cases hall with
        | nil => cases hlength
        | cons hdigit _ =>
            rw [List.cons_append] at hfixed ⊢
            rw [escapeCode?_of_isDigit hdigit, hfixed]
            exact if_pos hlt

/-- What is read as an escape has the form of one. -/
theorem exists_readAs_of_escapeCode? {text rest : List Char} {code : Nat}
    (hescape : escapeCode? text = some (code, rest)) :
    ∃ tail, text = tail ++ rest ∧ ReadAs ('\\' :: tail) code := by
  have hletter {c : Char} {value : Nat} {left : List Char} (hmem : (c, value) ∈ letterEscapes)
      (hsome : some (value, left) = some (code, rest)) :
      ∃ tail, c :: left = tail ++ rest ∧ ReadAs ('\\' :: tail) code := by
    obtain ⟨rfl, rfl⟩ := Prod.mk.inj (Option.some.inj hsome)
    exact ⟨[c], rfl, .inl (.letter hmem)⟩
  unfold escapeCode? at hescape
  split at hescape
  next => exact hletter (by decide) hescape
  next => exact hletter (by decide) hescape
  next => exact hletter (by decide) hescape
  next => exact hletter (by decide) hescape
  next => exact hletter (by decide) hescape
  next => exact hletter (by decide) hescape
  next => exact hletter (by decide) hescape
  next => exact hletter (by decide) hescape
  next => exact hletter (by decide) hescape
  next left =>
    obtain ⟨⟨byte, after⟩, hfixed, hsome⟩ := Option.map_eq_some_iff.mp hescape
    obtain ⟨rfl, rfl⟩ := Prod.mk.inj hsome
    obtain ⟨digits, rfl, hdigits⟩ := (fixedDigits_zero_iff (Nat.le_refl 16)).mp hfixed
    exact ⟨'x' :: digits, rfl, .inr ⟨byte, .hexadecimal hdigits, rfl⟩⟩
  next left =>
    obtain ⟨⟨digits, rfl, hdigits⟩, hvalid⟩ := characterDigits_iff.mp hescape
    exact ⟨'u' :: digits, rfl, .inl (.short hdigits hvalid)⟩
  next left =>
    obtain ⟨⟨digits, rfl, hdigits⟩, hvalid⟩ := characterDigits_iff.mp hescape
    exact ⟨'U' :: digits, rfl, .inl (.long hdigits hvalid)⟩
  next =>
    split at hescape
    next byte after hfixed =>
      obtain ⟨hlt, hsome⟩ := Option.ite_none_right_eq_some.mp hescape
      obtain ⟨rfl, rfl⟩ := Prod.mk.inj (Option.some.inj hsome)
      obtain ⟨digits, rfl, hdigits⟩ := (fixedDigits_zero_iff (by decide)).mp hfixed
      exact ⟨digits, rfl, .inr ⟨byte, .octal hdigits hlt, rfl⟩⟩
    next => cases hescape

/-- A character literal is a quoted element, and stands for the code that this is read as. -/
theorem characterLiteral?_eq_some_iff {text : List Char} {code : Nat} :
    characterLiteral? text = some code ↔
      ∃ body, text = '\'' :: (body ++ ['\'']) ∧ ReadAs body code := by
  constructor
  · intro hliteral
    unfold characterLiteral? at hliteral
    split at hliteral
    next rest =>
      split at hliteral
      next found hescape =>
        obtain rfl := Option.some.inj hliteral
        obtain ⟨tail, rfl, hread⟩ := exists_readAs_of_escapeCode? hescape
        exact ⟨'\\' :: tail, rfl, hread⟩
      next => cases hliteral
    next c hescape =>
      split at hliteral
      next => cases hliteral
      next hother =>
        obtain rfl := Option.some.inj hliteral
        refine ⟨[c], rfl, .inl (.plain ⟨fun hquote => hother (.inl hquote), ?_,
          fun hbreak => hother (.inr hbreak)⟩)⟩
        rintro rfl
        exact hescape rfl
    next => cases hliteral
  · rintro ⟨body, rfl, hread⟩
    by_cases hescape : ∃ tail, body = '\\' :: tail
    · obtain ⟨tail, rfl⟩ := hescape
      simp only [List.cons_append, characterLiteral?, escapeCode?_of_readAs hread]
    · -- all other elements are escapes
      obtain ⟨c, hother, rfl, rfl⟩ : ∃ c, (c ≠ '\'' ∧ c ≠ '\\' ∧ c ≠ '\n') ∧ body = [c] ∧
          code = c.toNat := by
        rcases hread with hcode | ⟨byte, hbyte, -⟩
        · cases hcode with
          | plain hother => exact ⟨_, hother, rfl, rfl⟩
          | _ => exact absurd ⟨_, rfl⟩ hescape
        · cases hbyte <;> exact absurd ⟨_, rfl⟩ hescape
      simp [characterLiteral?, hother]

end Octet
