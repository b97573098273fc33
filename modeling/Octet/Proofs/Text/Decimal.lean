import Mathlib.Tactic.Common
import Octet.Text.Numeral
import Octet.Text.Utf8

/-! # Decimal numbers and their bytes

A number that is written in decimal is the literal of that number: it starts with a
zero only if it is zero, so it is not taken for a literal in another base. Text in
which every character is one byte is read back from its bytes.
-/

namespace Octet

/-! ### ASCII -/

theorem utf8EncodeChar_of_lt {c : Char} (hascii : c.toNat < 128) :
    String.utf8EncodeChar c = [c.toNat.toUInt8] := by
  have hle : c.val.toNat ≤ 127 := by
    have : c.val.toNat < 128 := hascii
    omega
  simp only [String.utf8EncodeChar, hle, ↓reduceIte]
  rfl

theorem firstSymbol_of_lt {c : Char} (hascii : c.toNat < 128) (rest : List UInt8) :
    firstSymbol c.toNat.toUInt8 rest = (.char c, 0) := by
  have hcode : c.toNat.toUInt8.toNat = c.toNat := by
    simp only [Nat.toUInt8, UInt8.toNat_ofNat']
    omega
  have hlt : c.toNat.toUInt8 < 0x80 := by
    rw [UInt8.lt_iff_toNat_lt, hcode]
    exact hascii
  simp only [firstSymbol, if_pos hlt, hcode, Char.ofNat_toNat]

/-- Plain text is decoded byte by byte. -/
theorem readSymbols_of_ascii {chars : List Char} (hascii : ∀ c ∈ chars, c.toNat < 128)
    (done : List Symbol) :
    readSymbols done 0 (chars.flatMap String.utf8EncodeChar) =
      done.reverse ++ chars.map Symbol.char := by
  induction chars generalizing done with
  | nil => simp [readSymbols]
  | cons c chars ih =>
      obtain ⟨hfirst, hrest⟩ := List.forall_mem_cons.mp hascii
      rw [List.flatMap_cons, utf8EncodeChar_of_lt hfirst, List.singleton_append, readSymbols,
        firstSymbol_of_lt hfirst]
      simp [ih hrest]

/-- Plain text is decoded as it was encoded. -/
theorem decodeUtf8_utf8Bytes {text : String} (hascii : ∀ c ∈ text.toList, c.toNat < 128) :
    decodeUtf8 (utf8Bytes text) = textSymbols text :=
  readSymbols_of_ascii hascii []

/-! ### Digits -/

theorem toList_toString (number : Nat) : (toString number).toList = Nat.toDigits 10 number := by
  rw [Nat.toString_eq_repr, Nat.toList_repr]

theorem isDigit_of_mem_decimal {number : Nat} {c : Char} (hmem : c ∈ Nat.toDigits 10 number) :
    c.isDigit = true :=
  Nat.isDigit_of_mem_toDigits (by decide) (by decide) hmem

/-- The first digit of a number is a zero only if it is the only one. -/
theorem exists_toDigits (number : Nat) :
    ∃ first rest, Nat.toDigits 10 number = first :: rest ∧ (first = '0' → rest = []) := by
  induction number using Nat.strongRecOn with
  | ind number ih =>
      by_cases hlt : number < 10
      · exact ⟨_, [], Nat.toDigits_of_lt_base hlt, fun _ => rfl⟩
      · obtain ⟨first, rest, hdigits, hzero⟩ := ih (number / 10) (by omega)
        refine ⟨first, rest ++ [(number % 10).digitChar], ?_, ?_⟩
        · rw [Nat.toDigits_of_base_le (by decide) (by omega), hdigits, List.cons_append]
        · intro hfirst
          have hvalue := Nat.ofDigitChars_ten_toDigits (n := number / 10)
          rw [hdigits, hfirst, hzero hfirst] at hvalue
          simp [Nat.ofDigitChars_cons] at hvalue
          omega

theorem digitValue?_of_isDigit {c : Char} (hdigit : c.isDigit = true) :
    digitValue? c = some (c.toNat - '0'.toNat) ∧ c.toNat - '0'.toNat < 10 := by
  have hbounds : 48 ≤ c.toNat ∧ c.toNat ≤ 57 := Char.isDigit_iff_toNat.mp hdigit
  have hzero : '0'.toNat = 48 := rfl
  exact ⟨by simp [digitValue?, hdigit], by omega⟩

/-- Decimal digits are read as their number, if that is not too large. -/
theorem readDigits_of_isDigit {bound : Nat} {digits : List Char}
    (hdigits : ∀ c ∈ digits, c.isDigit = true) {value : Nat}
    (hle : Nat.ofDigitChars 10 digits value ≤ bound) :
    readDigits .decimal bound value digits = .ok (Nat.ofDigitChars 10 digits value) := by
  induction digits generalizing value with
  | nil => rfl
  | cons c digits ih =>
      obtain ⟨hfirst, hrest⟩ := List.forall_mem_cons.mp hdigits
      obtain ⟨hvalue, hlt⟩ := digitValue?_of_isDigit hfirst
      have hunderscore : c = '_' → False := by
        rintro rfl
        cases hfirst
      rw [Nat.ofDigitChars_cons, Nat.mul_comm] at hle ⊢
      -- the digits to come do not make the number smaller
      have hnext : value * 10 + (c.toNat - '0'.toNat) ≤ bound := by
        rw [Nat.ofDigitChars_eq_ofDigitChars_zero] at hle
        have := Nat.le_mul_of_pos_left (value * 10 + (c.toNat - '0'.toNat))
          (Nat.pow_pos (n := digits.length) (by decide : 0 < 10))
        omega
      rw [readDigits, hvalue]
      · have hbelow : ¬ Radix.decimal.base ≤ c.toNat - '0'.toNat := Nat.not_le.mpr hlt
        have hfits : ¬ bound < value * Radix.decimal.base + (c.toNat - '0'.toNat) :=
          Nat.not_lt.mpr hnext
        simp only [if_neg hbelow, if_neg hfits]
        exact ih hrest hle
      · exact hunderscore

/-- Without underscores there is none that stands in the wrong place. -/
theorem separatorsFit_of_not_mem {text : List Char} (hnot : '_' ∉ text) (afterDigit : Bool) :
    separatorsFit afterDigit text = true := by
  induction text generalizing afterDigit with
  | nil => rfl
  | cons c text ih =>
      rw [List.mem_cons, not_or] at hnot
      have hother : c = '_' → False := fun hsame => hnot.1 hsame.symm
      rw [separatorsFit]
      · exact ih hnot.2 _
      · exact hother

theorem literalSeparatorsFit_of_not_mem {text : List Char} (hnot : '_' ∉ text) :
    literalSeparatorsFit text = true := by
  unfold literalSeparatorsFit
  split
  next letter digits =>
    split <;> exact separatorsFit_of_not_mem (by simp_all) true
  next => exact separatorsFit_of_not_mem hnot false

/-- A number in decimal is a literal of that number. -/
theorem readNumeral_toDigits {number bound : Nat} (hle : number ≤ bound) :
    readNumeral bound (Nat.toDigits 10 number) = .ok number := by
  have hfit : literalSeparatorsFit (Nat.toDigits 10 number) = true :=
    literalSeparatorsFit_of_not_mem Nat.underscore_not_in_toDigits
  have hvalue : Nat.ofDigitChars 10 (Nat.toDigits 10 number) 0 = number :=
    Nat.ofDigitChars_ten_toDigits
  have hread : readDigits .decimal bound 0 (Nat.toDigits 10 number) = .ok number := by
    rw [readDigits_of_isDigit (fun c => isDigit_of_mem_decimal) (by omega), hvalue]
  obtain ⟨first, rest, hdigits, hzero⟩ := exists_toDigits number
  by_cases hfirst : first = '0'
  · rw [hdigits, hfirst, hzero hfirst] at hvalue ⊢
    simp [Nat.ofDigitChars_cons] at hvalue
    subst hvalue
    rfl
  · have hsplit : splitRadix (Nat.toDigits 10 number) = (.decimal, Nat.toDigits 10 number) := by
      rw [hdigits]
      unfold splitRadix
      split <;> simp_all
    simp only [readNumeral, hsplit, hread, hfit, List.isEmpty_iff, Nat.toDigits_ne_nil]
    rfl

end Octet
