import Mathlib.Data.List.Forall2
import Octet.Proofs.Source.Recording
import Octet.Proofs.Text.Decimal

/-! # Reading plain text

Plain text is made of names, decimal numbers, colons and commas, with blanks where it
has any. What it is read as can be told from the text alone: the tokens are the words
it was written from, there is nothing to notice about them, and where they stand does
not matter.
-/

namespace Octet

/-! ### Plain text -/

/-- A token as it is written. -/
structure Word where
  kind : TokenKind
  chars : List Char

/-- What follows does not belong to a name or a number. -/
def EndsWord (text : List Char) : Prop := ∀ c ∈ text.head?, c = ' ' ∨ c = ':' ∨ c = ',' ∨ c = '\n'

/-- Plain text and the words it is made of. -/
inductive Reads : List Char → List Word → Prop
  | done : Reads [] []
  | blank {text : List Char} {words : List Word} (hrest : Reads text words) :
      Reads (' ' :: text) words
  | mark {c : Char} {text : List Char} {words : List Word} (hmark : c = ':' ∨ c = ',')
      (hrest : Reads text words) : Reads (c :: text) (⟨.single c, [c]⟩ :: words)
  | name {first : Char} {tail text : List Char} {words : List Word}
      (hfirst : first.isAlpha = true) (htail : ∀ c ∈ tail, c.isAlphanum = true)
      (hends : EndsWord text) (hrest : Reads text words) :
      Reads (first :: (tail ++ text)) (⟨.identifier, first :: tail⟩ :: words)
  | number {value : Nat} {text : List Char} {words : List Word} (hends : EndsWord text)
      (hrest : Reads text words) :
      Reads (Nat.toDigits 10 value ++ text) (⟨.integer, Nat.toDigits 10 value⟩ :: words)

theorem EndsWord.append_newline {text : List Char} (hends : EndsWord text) (after : List Char) :
    EndsWord (text ++ '\n' :: after) := by
  cases text with
  | nil => simp [EndsWord]
  | cons c text => exact hends

theorem isAlpha_iff_toNat {c : Char} :
    c.isAlpha = true ↔ (65 ≤ c.toNat ∧ c.toNat ≤ 90) ∨ (97 ≤ c.toNat ∧ c.toNat ≤ 122) := by
  have hranges : c.isAlpha = (decide (65 ≤ c.val ∧ c.val ≤ 90) ||
      decide (97 ≤ c.val) && decide (c.val ≤ 122)) := rfl
  rw [hranges]
  simp only [Bool.or_eq_true, Bool.and_eq_true, decide_eq_true_eq, UInt32.le_iff_toNat_le]
  rfl

theorem lt_of_isAlphanum {c : Char} (halphanum : c.isAlphanum = true) :
    48 ≤ c.toNat ∧ c.toNat < 128 := by
  rw [Char.isAlphanum, Bool.or_eq_true] at halphanum
  rcases halphanum with halpha | hdigit
  · have hranges := isAlpha_iff_toNat.mp halpha
    omega
  · have hrange : 48 ≤ c.toNat ∧ c.toNat ≤ 57 := Char.isDigit_iff_toNat.mp hdigit
    omega

theorem isAlphanum_of_isAlpha {c : Char} (halpha : c.isAlpha = true) : c.isAlphanum = true := by
  simp [Char.isAlphanum, halpha]

theorem isAlphanum_of_isDigit {c : Char} (hdigit : c.isDigit = true) : c.isAlphanum = true := by
  simp [Char.isAlphanum, hdigit]

/-- What is read as words is plain text. -/
theorem Reads.ascii {text : List Char} {words : List Word} (hreads : Reads text words) :
    ∀ c ∈ text, 32 ≤ c.toNat ∧ c.toNat < 128 := by
  have hword {c : Char} (halphanum : c.isAlphanum = true) : 32 ≤ c.toNat ∧ c.toNat < 128 := by
    have := lt_of_isAlphanum halphanum
    omega
  induction hreads with
  | done => simp
  | blank _ ih => exact List.forall_mem_cons.mpr ⟨by decide, ih⟩
  | mark hmark _ ih =>
      refine List.forall_mem_cons.mpr ⟨?_, ih⟩
      rcases hmark with rfl | rfl <;> decide
  | name hfirst htail _ _ ih =>
      refine List.forall_mem_cons.mpr ⟨hword (isAlphanum_of_isAlpha hfirst), ?_⟩
      exact List.forall_mem_append.mpr ⟨fun c hc => hword (htail c hc), ih⟩
  | number _ _ ih =>
      refine List.forall_mem_append.mpr ⟨fun c hc => ?_, ih⟩
      exact hword (isAlphanum_of_isDigit (isDigit_of_mem_decimal hc))

/-! ### Reading on -/

/-- The text holds nothing that is noticed when it is read. -/
def Clean (text : List Char) : Prop := '\x00' ∉ text

theorem readProblems_of_clean {text : List Char} (hclean : Clean text) :
    readProblems none (text.map Symbol.char) = [] := by
  cases text with
  | nil => rfl
  | cons c text =>
      have hother : c ≠ '\x00' := fun hsame => hclean (hsame ▸ List.mem_cons_self)
      simp [readProblems, hother]

theorem passWhile_of_stop {skips : Symbol → Bool} {notices : List Notice} {place : Place}
    {symbol : Symbol} {rest : List Symbol} (hstop : skips symbol = false) :
    passWhile none skips notices place (symbol :: rest) = ⟨notices, place, symbol :: rest⟩ := by
  simp [passWhile, hstop]

theorem scanToken_of_blank {text : List Char} (hclean : Clean text) (place : Place) :
    scanToken none [] place ((' ' :: text).map Symbol.char) =
      scanToken none [] (place.after (.char ' ')) (text.map Symbol.char) := by
  have hnotices : readNotices none place (place.after (.char ' ')) (text.map Symbol.char) = [] := by
    simp [readNotices, readProblems_of_clean hclean]
  have hblank : isBlank (.char ' ') = true := by decide
  simp only [scanToken, List.map_cons, passWhile, hblank, ↓reduceIte, hnotices, List.reverse_nil,
    List.nil_append]

/-- A lexeme without problems is scanned as one token. -/
theorem scanToken_of_lexeme {first : Symbol} {rest after : List Symbol} {kind : TokenKind}
    {text : List Symbol} (hblank : isBlank first = false)
    (hlexeme : lexeme none first rest = ⟨kind, text, [], after⟩) (place : Place) :
    scanToken none [] place (first :: rest) =
      ⟨[], some ⟨kind, text, place, false⟩, place.afterAll text, after⟩ := by
  simp [scanToken, passWhile_of_stop hblank, hlexeme]

section Lines

variable {lines : List SourceLine} {tokens : List Token} {place next : Place}
  {symbols rest : List Symbol}

/-- What is skipped before a token leaves the lines as they are. -/
theorem linesFrom_of_scanToken
    (hscan : scanToken none [] place symbols = scanToken none [] next rest) :
    linesFrom none lines tokens [] [] place symbols =
      linesFrom none lines tokens [] [] next rest := by
  rw [linesFrom, hscan]
  conv_rhs => rw [linesFrom]

/-- A token joins the current line. -/
theorem linesFrom_of_token {token : Token}
    (hscan : scanToken none [] place symbols = ⟨[], some token, next, rest⟩)
    (hkind : token.kind ≠ .single '\n') (hcomment : startsComment token = false) :
    linesFrom none lines tokens [] [] place symbols =
      linesFrom none lines (token :: tokens) [] [] next rest := by
  rw [linesFrom, hscan]
  simp [hkind, hcomment]

/-- A line break ends the current line. -/
theorem linesFrom_of_break {token : Token}
    (hscan : scanToken none [] place symbols = ⟨[], some token, next, rest⟩)
    (hkind : token.kind = .single '\n') :
    linesFrom none lines tokens [] [] place symbols =
      linesFrom none (⟨tokens.reverse, []⟩ :: lines) [] [] [] next rest := by
  rw [linesFrom, hscan]
  simp [hkind]

theorem linesFrom_nil :
    linesFrom none lines tokens [] [] place [] = (⟨tokens.reverse, []⟩ :: lines).reverse := by
  rw [linesFrom]
  simp [scanToken, passWhile]

end Lines

/-! ### Words -/

theorem map_toChar (chars : List Char) : (chars.map Symbol.char).map Symbol.toChar = chars := by
  rw [List.map_map]
  exact List.map_id chars

section Words

variable {text : List Char}

theorem takeWhile_of_endsWord {inside : Char → Bool} {word : List Char}
    (hword : ∀ c ∈ word, inside c = true)
    (houtside : inside ' ' = false ∧ inside ':' = false ∧ inside ',' = false ∧
      inside '\n' = false) (hends : EndsWord text) :
    (word ++ text).takeWhile inside = word ∧ (word ++ text).dropWhile inside = text := by
  have hstops : text.takeWhile inside = [] ∧ text.dropWhile inside = text := by
    cases text with
    | nil => simp
    | cons c text =>
        have hnot : inside c = false := by
          rcases hends c rfl with rfl | rfl | rfl | rfl <;> simp [houtside]
        simp [hnot]
  rw [List.takeWhile_append_of_pos hword, List.dropWhile_append_of_pos hword, hstops.1, hstops.2,
    List.append_nil]
  exact ⟨rfl, rfl⟩

theorem startsName_of_isAlpha {c : Char} (halpha : c.isAlpha = true) :
    startsName (.char c) = true := by
  have hascii := (lt_of_isAlphanum (isAlphanum_of_isAlpha halpha)).2
  simp [startsName, isLetter, hascii, halpha]

theorem startsName_of_isDigit {c : Char} (hdigit : c.isDigit = true) :
    startsName (.char c) = false := by
  have hrange : 48 ≤ c.toNat ∧ c.toNat ≤ 57 := Char.isDigit_iff_toNat.mp hdigit
  have hascii := (lt_of_isAlphanum (isAlphanum_of_isDigit hdigit)).2
  have hmarks : c ≠ '_' ∧ c ≠ '.' := by
    constructor <;> (rintro rfl; cases hdigit)
  have halpha : c.isAlpha = false := by
    rw [Bool.eq_false_iff]
    intro halpha
    have hranges := isAlpha_iff_toNat.mp halpha
    omega
  simp [startsName, isLetter, hascii, halpha, hmarks]

theorem continuesName_of_isAlphanum {c : Char} (halphanum : c.isAlphanum = true) :
    continuesName (.char c) = true := by
  have hascii := (lt_of_isAlphanum halphanum).2
  simp only [Char.isAlphanum, Bool.or_eq_true] at halphanum
  rcases halphanum with halpha | hdigit
  · simp [continuesName, isLetter, hascii, halpha]
  · simp [continuesName, isDecimalDigit, hascii, hdigit]

/-- A letter and the letters and digits behind it are a name. -/
theorem lexeme_of_name {first : Char} {tail : List Char} (hfirst : first.isAlpha = true)
    (htail : ∀ c ∈ tail, c.isAlphanum = true) (hends : EndsWord text) (hclean : Clean text) :
    lexeme none (.char first) ((tail ++ text).map Symbol.char) =
      ⟨.identifier, (first :: tail).map Symbol.char, [], text.map Symbol.char⟩ := by
  have hword : ∀ c ∈ tail, (continuesName ∘ Symbol.char) c = true :=
    fun c hc => continuesName_of_isAlphanum (htail c hc)
  obtain ⟨htaken, hdropped⟩ := takeWhile_of_endsWord hword (by decide) hends
  simp only [lexeme, startsName_of_isAlpha hfirst, ↓reduceIte, List.takeWhile_map,
    List.dropWhile_map, htaken, hdropped, readProblems_of_clean hclean, List.map_cons]

/-- A number in decimal is not taken for a literal in another base. A zero is in base eight, but
has no further digits. -/
theorem exists_integerRadix {value : Nat} {first : Char} {tail : List Char}
    (hdigits : Nat.toDigits 10 value = first :: tail) (hends : EndsWord text) :
    ∃ radix, radix ≠ .hexadecimal ∧
      integerRadix first ((tail ++ text).map Symbol.char) = (radix, [], true) ∧
      firstBadDigit? radix tail = none := by
  obtain ⟨_, _, hsame, hzero⟩ := exists_toDigits value
  obtain ⟨rfl, rfl⟩ := List.cons.inj (hdigits.symm.trans hsame)
  by_cases hfirst : first = '0'
  · rw [hzero hfirst]
    refine ⟨.octal, by decide, ?_, rfl⟩
    cases text with
    | nil => simp [integerRadix, hfirst]
    | cons c text =>
        have hletter : Radix.ofLetter? c = none := by
          rcases hends c rfl with rfl | rfl | rfl | rfl <;> rfl
        simp [integerRadix, hfirst, hletter]
  · refine ⟨.decimal, by decide, by simp [integerRadix, hfirst], ?_⟩
    have htail : ∀ c ∈ tail, c.isDigit = true := fun c hc =>
      isDigit_of_mem_decimal (hdigits ▸ List.mem_cons_of_mem first hc)
    simp only [firstBadDigit?, reduceCtorEq, ↓reduceIte, List.find?_eq_none]
    intro c hc hbad
    have hlt := (digitValue?_of_isDigit (htail c hc)).2
    obtain ⟨-, hle⟩ := Bool.and_eq_true_iff.mp hbad
    exact Nat.not_le.mpr hlt (of_decide_eq_true hle)

/-- The digits of a number are an integer. -/
theorem lexeme_of_number {value : Nat} {first : Char} {tail : List Char}
    (hdigits : Nat.toDigits 10 value = first :: tail) (hends : EndsWord text)
    (hclean : Clean text) :
    lexeme none (.char first) ((tail ++ text).map Symbol.char) =
      ⟨.integer, (first :: tail).map Symbol.char, [], text.map Symbol.char⟩ := by
  have hall : ∀ c ∈ first :: tail, c.isDigit = true := fun c hc =>
    isDigit_of_mem_decimal (hdigits ▸ hc)
  obtain ⟨hfirst, htail⟩ := List.forall_mem_cons.mp hall
  obtain ⟨radix, hradix, hmark, hbad⟩ := exists_integerRadix hdigits hends
  have hword : ∀ c ∈ tail, (c == '_' || c.isDigit) = true := fun c hc => by simp [htail c hc]
  have hspan : digitSpan radix ((tail ++ text).map Symbol.char) = tail.map Symbol.char := by
    obtain ⟨htaken, -⟩ := takeWhile_of_endsWord hword (by decide) hends
    simp only [digitSpan, hradix, ↓reduceIte, List.takeWhile_map]
    exact congrArg (List.map Symbol.char) htaken
  have hfit : literalSeparatorsFit (first :: tail) = true :=
    literalSeparatorsFit_of_not_mem (hdigits ▸ Nat.underscore_not_in_toDigits)
  have hrest : ((tail ++ text).map Symbol.char).drop (tail.map Symbol.char).length =
      text.map Symbol.char := by
    rw [List.map_append, List.drop_left]
  have hchars : (Symbol.char first :: tail.map Symbol.char).map Symbol.toChar = first :: tail :=
    map_toChar (first :: tail)
  rw [List.map_cons]
  simp only [lexeme, startsName_of_isDigit hfirst, hfirst, Bool.false_eq_true, ↓reduceIte,
    integerLexeme, hmark, List.length_nil, List.drop_zero, hspan, Nat.zero_add, hrest,
    readProblems_of_clean hclean, map_toChar, hbad, List.append_nil, List.singleton_append, hchars,
    hfit, Bool.true_or, Option.map_none, Option.toList_none]

/-- A mark is a token of its own. -/
theorem lexeme_of_mark {c : Char} (hmark : c = ':' ∨ c = ',' ∨ c = '\n') (hclean : Clean text) :
    lexeme none (.char c) (text.map Symbol.char) =
      ⟨.single c, [.char c], [], text.map Symbol.char⟩ := by
  rcases hmark with rfl | rfl | rfl <;>
    simp [lexeme, startsName, isLetter, readProblems_of_clean hclean]

end Words

/-! ### Lines -/

/-- The tokens are the words, and nothing was noticed while they were read. -/
def Spells (tokens : List Token) (words : List Word) : Prop :=
  tokens.map (fun token => ⟨token.kind, token.chars⟩) = words ∧
    ∀ token ∈ tokens, token.flagged = false

theorem Spells.cons {tokens : List Token} {words : List Word} (hspells : Spells tokens words)
    (kind : TokenKind) (chars : List Char) (place : Place) :
    Spells (⟨kind, chars.map Symbol.char, place, false⟩ :: tokens) (⟨kind, chars⟩ :: words) := by
  refine ⟨?_, List.forall_mem_cons.mpr ⟨rfl, hspells.2⟩⟩
  rw [List.map_cons, hspells.1, Token.chars, map_toChar]

/-- A line that is read as words is clean, together with clean lines behind it. -/
theorem Reads.clean {text : List Char} {words : List Word} (hreads : Reads text words)
    {after : List Char} (hafter : Clean after) : Clean (text ++ '\n' :: after) := by
  intro hmem
  rcases List.mem_append.mp hmem with htext | hrest
  · exact absurd (hreads.ascii _ htext).1 (by decide)
  · rcases List.mem_cons.mp hrest with hbreak | hlater
    · cases hbreak
    · exact hafter hlater

theorem isBlank_of_isAlphanum {c : Char} (halphanum : c.isAlphanum = true) :
    isBlank (.char c) = false := by
  have hle := (lt_of_isAlphanum halphanum).1
  have hother : c ≠ ' ' ∧ c ≠ '\t' ∧ c ≠ '\r' := by
    refine ⟨?_, ?_, ?_⟩ <;> (rintro rfl; exact absurd hle (by decide))
  simp [isBlank, hother]

/-- The symbols up to `rest` are read as the words, whatever was read on the line before. -/
def ReadsAs (symbols rest : List Symbol) (words : List Word) : Prop :=
  ∀ lines tokens place, ∃ read next, Spells read words ∧
    linesFrom none lines tokens [] [] place symbols =
      linesFrom none lines (read.reverse ++ tokens) [] [] next rest

/-- A word in front of what is read is read as a token. -/
theorem ReadsAs.word {first : Char} {symbols after rest : List Symbol} {words : List Word}
    (hafter : ReadsAs after rest words) {kind : TokenKind} {chars : List Char}
    (hblank : isBlank (.char first) = false)
    (hlexeme : lexeme none (.char first) symbols = ⟨kind, chars.map Symbol.char, [], after⟩)
    (hkind : kind ∈ [.identifier, .integer, .single ':', .single ',']) :
    ReadsAs (.char first :: symbols) rest (⟨kind, chars⟩ :: words) := by
  intro lines tokens place
  let token : Token := ⟨kind, chars.map Symbol.char, place, false⟩
  obtain ⟨read, next, hspells, hlines⟩ :=
    hafter lines (token :: tokens) (place.afterAll (chars.map Symbol.char))
  refine ⟨token :: read, next, hspells.cons kind chars place, ?_⟩
  rw [List.reverse_cons, List.append_assoc, List.singleton_append, ← hlines]
  apply linesFrom_of_token (scanToken_of_lexeme hblank hlexeme place)
  · rintro rfl
    simp at hkind
  · simp only [List.mem_cons, List.not_mem_nil, or_false] at hkind
    rcases hkind with rfl | rfl | rfl | rfl <;> rfl

/-- Plain text at the end of a line is read as its words. -/
theorem Reads.readsAs {text : List Char} {words : List Word} (hreads : Reads text words)
    {after : List Char} (hafter : Clean after) :
    ReadsAs ((text ++ '\n' :: after).map Symbol.char) (('\n' :: after).map Symbol.char) words := by
  induction hreads with
  | done => exact fun lines tokens place => ⟨[], place, ⟨rfl, by simp⟩, rfl⟩
  | blank hrest ih =>
      intro lines tokens place
      obtain ⟨read, next, hspells, hlines⟩ := ih lines tokens (place.after (.char ' '))
      refine ⟨read, next, hspells, ?_⟩
      rw [← hlines]
      exact linesFrom_of_scanToken (scanToken_of_blank (hrest.clean hafter) place)
  | mark hmark hrest ih =>
      have hlexeme := lexeme_of_mark (hmark.imp_right .inl) (hrest.clean hafter)
      refine ih.word ?_ hlexeme ?_
      · rcases hmark with rfl | rfl <;> rfl
      · rcases hmark with rfl | rfl <;> simp
  | name hfirst htail hends hrest ih =>
      have hlexeme := lexeme_of_name hfirst htail (hends.append_newline after) (hrest.clean hafter)
      rw [List.cons_append, List.append_assoc, List.map_cons]
      exact ih.word (isBlank_of_isAlphanum (isAlphanum_of_isAlpha hfirst)) hlexeme (by simp)
  | @number value text words hends hrest ih =>
      obtain ⟨first, tail, hdigits, -⟩ := exists_toDigits value
      have hlexeme := lexeme_of_number hdigits (hends.append_newline after) (hrest.clean hafter)
      have hfirst : first.isDigit = true :=
        isDigit_of_mem_decimal (hdigits ▸ List.mem_cons_self)
      rw [hdigits, List.append_assoc, List.cons_append, List.map_cons]
      exact ih.word (isBlank_of_isAlphanum (isAlphanum_of_isDigit hfirst)) hlexeme (by simp)

/-! ### Texts -/

/-- The text of some lines. -/
def linesText (lines : List (List Char)) : List Char := lines.flatMap fun line => line ++ ['\n']

theorem linesText_cons (line : List Char) (lines : List (List Char)) :
    linesText (line :: lines) = line ++ '\n' :: linesText lines := by
  simp [linesText]

section Texts

variable {α : Type} {items : List α} {text : α → List Char} {words : α → List Word}

theorem ascii_linesText (hreads : ∀ item ∈ items, Reads (text item) (words item)) :
    ∀ c ∈ linesText (items.map text), 0 < c.toNat ∧ c.toNat < 128 := by
  intro c hc
  simp only [linesText, List.mem_flatMap, List.mem_map, List.mem_append, List.mem_singleton] at hc
  obtain ⟨_, ⟨item, hitem, rfl⟩, hline | rfl⟩ := hc
  · have := (hreads item hitem).ascii c hline
    omega
  · decide

theorem clean_linesText (hreads : ∀ item ∈ items, Reads (text item) (words item)) :
    Clean (linesText (items.map text)) := by
  intro hmem
  exact absurd (ascii_linesText hreads _ hmem).1 (by decide)

/-- Lines of plain text are read as the words of each of them; behind the last line break there is
a line without any. -/
theorem exists_linesFrom_linesText (hreads : ∀ item ∈ items, Reads (text item) (words item))
    (before : List SourceLine) (place : Place) :
    ∃ read, List.Forall₂ (fun line item => Spells line.tokens (words item) ∧ line.notices = [])
        read items ∧
      linesFrom none before [] [] [] place ((linesText (items.map text)).map Symbol.char) =
        before.reverse ++ read ++ [⟨[], []⟩] := by
  induction items generalizing before place with
  | nil =>
      refine ⟨[], .nil, ?_⟩
      simp [linesText, linesFrom_nil]
  | cons item items ih =>
      obtain ⟨hfirst, hrest⟩ := List.forall_mem_cons.mp hreads
      have hclean := clean_linesText hrest
      obtain ⟨tokens, next, hspells, hline⟩ := hfirst.readsAs hclean before [] place
      have hbreak := scanToken_of_lexeme (by rfl) (lexeme_of_mark (.inr (.inr rfl)) hclean) next
      obtain ⟨read, hread, hlines⟩ := ih hrest (⟨tokens, []⟩ :: before) (next.afterAll [.char '\n'])
      refine ⟨⟨tokens, []⟩ :: read, .cons ⟨hspells, rfl⟩ hread, ?_⟩
      rw [List.map_cons, linesText_cons, hline, List.map_cons, linesFrom_of_break hbreak rfl]
      simp [hlines]

/-- Each line is read as its words, and after the last line break comes an empty one. -/
theorem exists_lines (hreads : ∀ item ∈ items, Reads (text item) (words item)) :
    ∃ read, List.Forall₂ (fun line item => Spells line.tokens (words item) ∧ line.notices = [])
        read items ∧
      Source.lines ⟨(linesText (items.map text)).map Symbol.char, none⟩ = read ++ [⟨[], []⟩] := by
  obtain ⟨read, hread, hlines⟩ := exists_linesFrom_linesText hreads [] .start
  refine ⟨read, hread, ?_⟩
  rw [List.reverse_nil, List.nil_append] at hlines
  rw [← hlines]
  have hnotices : readNotices none .start .start
      ((linesText (items.map text)).map Symbol.char) = [] := by
    simp [readNotices, readProblems_of_clean (clean_linesText hreads)]
  simp only [Source.lines, hnotices]
  split
  next rest hmark =>
    -- the text is ASCII, so it does not start with a byte order mark
    obtain ⟨c, hc, hsame⟩ : ∃ c ∈ linesText (items.map text), Symbol.char c = .char '\ufeff' :=
      List.mem_map.mp (hmark ▸ List.mem_cons_self)
    obtain rfl := Symbol.char.inj hsame
    exact absurd (ascii_linesText hreads _ hc).2 (by decide)
  next => rfl

/-- If each line is a statement by its words alone, the text is read as these statements, and there
is nothing to notice. -/
theorem exists_parse (hreads : ∀ item ∈ items, Reads (text item) (words item))
    {Means : Statement → α → Prop}
    (hmeans : ∀ item ∈ items, ∀ tokens, Spells tokens (words item) →
      ∃ statement, statementOf tokens = .ok (some statement) ∧ Means statement item) :
    ∃ statements, List.Forall₂ Means statements items ∧
      Source.parse ⟨(linesText (items.map text)).map Symbol.char, none⟩ = ⟨statements, []⟩ := by
  obtain ⟨read, hread, hlines⟩ := exists_lines hreads
  have hparsed : ∃ statements, List.Forall₂ Means statements items ∧
      read.map parseLine = statements.map fun statement => ⟨[statement], []⟩ := by
    clear hlines hreads
    induction hread with
    | nil => exact ⟨[], .nil, rfl⟩
    | cons hline _ ih =>
        obtain ⟨hfirst, hrest⟩ := List.forall_mem_cons.mp hmeans
        obtain ⟨statement, hstatement, hmeaning⟩ := hfirst _ hline.1
        obtain ⟨statements, hothers, hmap⟩ := ih hrest
        refine ⟨statement :: statements, .cons hmeaning hothers, ?_⟩
        simp [parseLine, hstatement, hline.2, hmap]
  obtain ⟨statements, hstatements, hmap⟩ := hparsed
  refine ⟨statements, hstatements, ?_⟩
  generalize Source.mk _ _ = source at hlines ⊢
  have hempty : parseLine ⟨[], []⟩ = ⟨[], []⟩ := rfl
  have hall : source.lines.map parseLine =
      (statements.map fun statement => ⟨[statement], []⟩) ++ [⟨[], []⟩] := by
    rw [hlines, List.map_append, hmap, List.map_singleton, hempty]
  have hnotices : source.parse.notices = [] := by
    rw [Source.notices_parse_eq_take, ← List.flatMap_map parseLine Parsed.notices, hall]
    simp [List.flatMap_map]
  have hsame : source.parse.statements = statements := by
    rw [Source.statements_parse hnotices, ← List.flatMap_map parseLine Parsed.statements, hall]
    simp [List.flatMap_map]
  rw [← hnotices, ← hsame]

end Texts

end Octet
