import Octet.Proofs.Source.Joining
import Octet.Proofs.Text.Literal

/-! # Literals as operands

An integer that is read without a notice is a literal, whatever its base and its length,
and as an operand it gives the number it stands for or is refused as too large. Every
character literal is read as one token. As an operand it gives its code, or is refused
as too large; an escape for a byte beyond ASCII is refused as well, although a byte is
never too large.
-/

namespace Octet

variable {failure : Option String}

/-! ### Tokens of a source -/

/-- What holds of every token when it is read holds of the tokens of all lines. -/
theorem forall_tokens_of_scanToken {P : Token → Prop}
    (hscan : ∀ early place symbols token,
      (scanToken failure early place symbols).token = some token → P token)
    {lines : List SourceLine} {tokens : List Token} {notices early : List Notice} {place : Place}
    {symbols : List Symbol} (hlines : ∀ line ∈ lines, ∀ token ∈ line.tokens, P token)
    (htokens : ∀ token ∈ tokens, P token) :
    ∀ line ∈ linesFrom failure lines tokens notices early place symbols,
      ∀ token ∈ line.tokens, P token := by
  fun_induction linesFrom failure lines tokens notices early place symbols with
  | case1 lines tokens notices early place symbols scanned noticed htoken =>
      intro line hmem
      rw [List.mem_reverse, List.mem_cons] at hmem
      rcases hmem with rfl | hbefore
      · simpa using htokens
      · exact hlines line hbefore
  | case2 lines tokens notices early place symbols scanned noticed token htoken hkind ih =>
      simp only [List.unattach_reverse, List.unattach_attach, List.forall_mem_cons,
        List.mem_reverse] at ih
      exact ih ⟨htokens, hlines⟩ (by simp)
  | case3 lines tokens notices early place symbols scanned noticed token htoken _ hcomment
      passage ih => exact ih hlines htokens
  | case4 lines tokens notices early place symbols scanned noticed token htoken hkind hcomment
      ih =>
      exact ih hlines (List.forall_mem_cons.mpr ⟨hscan _ _ _ _ htoken, htokens⟩)

/-- The token is a lexeme, and nothing was wrong with it if it is not flagged. -/
def Token.IsLexeme (failure : Option String) (token : Token) : Prop :=
  ∃ first rest problems after,
    lexeme failure first rest = ⟨token.kind, token.text, problems, after⟩ ∧
      (token.flagged = false → problems = [])

theorem isLexeme_of_scanToken {early : List Notice} {place : Place} {symbols : List Symbol}
    {token : Token} (htoken : (scanToken failure early place symbols).token = some token) :
    token.IsLexeme failure := by
  simp only [scanToken] at htoken
  split at htoken
  next => cases htoken
  next first rest _ =>
    obtain rfl := Option.some.inj htoken
    refine ⟨first, rest, (lexeme failure first rest).problems,
      (lexeme failure first rest).rest, rfl, fun hflag => ?_⟩
    rw [Bool.not_eq_false', List.isEmpty_iff] at hflag
    exact List.map_eq_nil_iff.mp (List.append_eq_nil_iff.mp hflag).2

/-- Every token of a source is a lexeme. -/
theorem Source.isLexeme_of_mem {source : Source} {line : SourceLine} (hline : line ∈ source.lines)
    {token : Token} (htoken : token ∈ line.tokens) : token.IsLexeme source.failure := by
  obtain ⟨previous, place, hlines⟩ := source.exists_lines_eq
  rw [hlines] at hline
  exact forall_tokens_of_scanToken (fun _ _ _ _ => isLexeme_of_scanToken) (by simp) (by simp)
    line hline token htoken

/-! ### Integers -/

/-- An integer starts with a digit. -/
theorem integerLexeme_of_kind {first : Symbol} {rest : List Symbol}
    (hkind : (lexeme failure first rest).kind = .integer) :
    ∃ c, c.isDigit = true ∧ lexeme failure first rest = integerLexeme failure c rest := by
  unfold lexeme at hkind ⊢
  split at hkind
  next => cases hkind
  next hname =>
    rw [if_neg hname]
    split at hkind
    next c =>
      split at hkind
      next hdigit => exact ⟨c, hdigit, if_pos hdigit⟩
      next =>
        split at hkind
        next => cases hkind
        next => cases hkind
    next => cases hkind

/-- A zero names a base together with the letter behind it, and base eight without one. -/
theorem integerRadix_cases (first : Char) (rest : List Symbol) :
    (first ≠ '0' ∧ integerRadix first rest = (.decimal, [], true)) ∨
    (first = '0' ∧ integerRadix first rest = (.octal, [], true)) ∨
    (first = '0' ∧ ∃ letter radix, Radix.ofLetter? letter = some radix ∧
      integerRadix first rest = (radix, [.char letter], false)) := by
  unfold integerRadix
  split
  next hzero =>
    split
    next letter tail =>
      split
      next radix hletter => exact .inr (.inr ⟨hzero, letter, radix, hletter, rfl⟩)
      next => exact .inr (.inl ⟨hzero, rfl⟩)
    next => exact .inr (.inl ⟨hzero, rfl⟩)
  next hzero => exact .inl ⟨hzero, rfl⟩

/-- Without a bad digit, an integer has digits of its radix and separators only. -/
theorem isDigit_of_mem_digitSpan {radix : Radix} {symbols : List Symbol}
    (hgood : firstBadDigit? radix ((digitSpan radix symbols).map Symbol.toChar) = none) :
    ∀ c ∈ (digitSpan radix symbols).map Symbol.toChar,
      c = '_' ∨ ∃ value, IsDigit radix.base c value := by
  intro c hmem
  obtain ⟨symbol, hsymbol, rfl⟩ := List.mem_map.mp hmem
  have hspan := List.mem_takeWhile_imp hsymbol
  cases symbol with
  | stray => cases hspan
  | char c =>
      refine or_iff_not_imp_left.mpr fun hother => ?_
      change c ≠ '_' at hother
      by_cases hradix : radix = .hexadecimal
      · subst hradix
        have hhex : isHexDigit c = true := by simpa [hother] using hspan
        exact exists_isDigit_of_isHexDigit hhex
      · have hdigit : c.isDigit = true := by simpa [hother, hradix] using hspan
        simp only [firstBadDigit?, if_neg hradix, List.find?_eq_none] at hgood
        have hlt : c.toNat - '0'.toNat < radix.base := by simpa [hother] using hgood c hmem
        exact ⟨_, (isDigit_iff radix.base_bounds.2).mpr ⟨(digitValue?_of_isDigit hdigit).1, hlt⟩⟩

/-- An integer of which nothing is noticed has digits of its base behind the mark of the base, with
underscores between digits only. -/
theorem exists_digits_of_integerLexeme {first : Char} {rest mark : List Symbol} {radix : Radix}
    {hasDigit : Bool} (hradix : integerRadix first rest = (radix, mark, hasDigit))
    (hproblems : (integerLexeme failure first rest).problems = []) :
    ∃ digits, (integerLexeme failure first rest).text.map Symbol.toChar =
        first :: (mark.map Symbol.toChar ++ digits) ∧
      (∀ c ∈ digits, c = '_' ∨ ∃ value, IsDigit radix.base c value) ∧
      (hasDigit = false → digits ≠ []) ∧
      literalSeparatorsFit (first :: (mark.map Symbol.toChar ++ digits)) = true := by
  simp only [integerLexeme, hradix, List.append_eq_nil_iff] at hproblems ⊢
  obtain ⟨⟨⟨-, hsome⟩, hgood⟩, hfit⟩ := hproblems
  refine ⟨(digitSpan radix (rest.drop mark.length)).map Symbol.toChar, by simp [Symbol.toChar],
    isDigit_of_mem_digitSpan (by simpa using hgood), ?_, by simpa [Symbol.toChar] using hfit⟩
  rintro rfl hnone
  simp [hnone] at hsome

/-- An integer of which nothing is noticed is a literal. -/
theorem exists_integerLiteral_of_integerLexeme {first : Char} (hfirst : first.isDigit = true)
    {rest : List Symbol} (hproblems : (integerLexeme failure first rest).problems = []) :
    ∃ value, IntegerLiteral ((integerLexeme failure first rest).text.map Symbol.toChar) value := by
  rcases integerRadix_cases first rest with ⟨hzero, hradix⟩ | ⟨rfl, hradix⟩ |
    ⟨rfl, letter, radix, hletter, hradix⟩
  all_goals
    obtain ⟨digits, htext, hdigits, hsome, hfit⟩ := exists_digits_of_integerLexeme hradix hproblems
    rw [htext]
  · obtain ⟨hvalue, hlt⟩ := digitValue?_of_isDigit hfirst
    have hdigit : IsDigit 10 first _ := (isDigit_iff (by decide)).mpr ⟨hvalue, hlt⟩
    obtain ⟨hhex, hother⟩ := hdigit.isHexDigit (by decide)
    rw [literalSeparatorsFit, separatorsFit_cons hother, hhex] at hfit
    · obtain ⟨values, hrun⟩ := exists_digitRun (by decide) hdigits hfit
      exact ⟨_, .decimal hdigit hzero hrun⟩
    · intro _ _ hsame
      exact hzero (List.cons.inj hsame).1
  · have hseparators : separatorsFit true digits = true := by
      cases digits with
      | nil => rfl
      | cons c digits =>
          -- neither an underscore nor a digit is the letter of a base
          have hletter : Radix.ofLetter? c = none := by
            rcases hdigits c List.mem_cons_self with rfl | ⟨value, hdigit⟩
            · rfl
            · exact hdigit.ofLetter?
          simpa [literalSeparatorsFit, hletter] using hfit
    obtain ⟨values, hrun⟩ := exists_digitRun (by decide) hdigits hseparators
    exact ⟨_, .octal hrun⟩
  · have hseparators : separatorsFit true digits = true := by
      simpa [literalSeparatorsFit, hletter, Symbol.toChar] using hfit
    obtain ⟨values, hrun⟩ := exists_digitRun radix.base_bounds.2 hdigits hseparators
    refine ⟨_, .marked hletter hrun ?_⟩
    rintro rfl
    cases hrun
    exact hsome rfl rfl

/-- An integer token that was not flagged is an integer literal. -/
theorem Token.IsLexeme.exists_integerLiteral {token : Token} (hlexeme : token.IsLexeme failure)
    (hkind : token.kind = .integer) (hflag : token.flagged = false) :
    ∃ value, IntegerLiteral token.chars value := by
  obtain ⟨first, rest, problems, after, hread, hnone⟩ := hlexeme
  obtain rfl := hnone hflag
  have hinteger : (lexeme failure first rest).kind = .integer := by rw [hread, hkind]
  obtain ⟨c, hdigit, hsame⟩ := integerLexeme_of_kind hinteger
  rw [hsame] at hread
  have hliteral := exists_integerLiteral_of_integerLexeme hdigit (congrArg Lexeme.problems hread)
  rwa [hread] at hliteral

/-- What a token gives as an operand when it stands for a number. -/
def Token.byteOperand (token : Token) (number : Nat) : Except (List Notice) Operand :=
  if number ≤ 255 then .ok ⟨.immediate number.toUInt8, token.place⟩
  else .error [⟨token.place, .valueRange token.string⟩]

/-- An integer literal is the operand of its value, if that fits. -/
theorem operandOf_of_integerLiteral {token : Token} (hkind : token.kind = .integer)
    (hflag : token.flagged = false) {value : Nat} (hliteral : IntegerLiteral token.chars value) :
    operandOf token = token.byteOperand value := by
  rw [operandOf, hflag, if_neg Bool.false_ne_true, hkind]
  simp only [hliteral.readNumeral, Token.byteOperand]
  by_cases hle : value ≤ 255
  · simp only [upTo, if_pos hle]
  · simp only [upTo, if_neg hle]

/-- An integer that is read without a notice is a literal of one number, and gives that number as
an operand or is refused because the number is too large. -/
theorem operandOf_integer {source : Source} {line : SourceLine} (hline : line ∈ source.lines)
    {token : Token} (htoken : token ∈ line.tokens) (hkind : token.kind = .integer)
    (hflag : token.flagged = false) :
    ∃ value, (∀ other, IntegerLiteral token.chars other ↔ other = value) ∧
      operandOf token = token.byteOperand value ∧
      readNumeral 255 token.chars ≠ .error .malformed := by
  obtain ⟨value, hliteral⟩ :=
    (Source.isLexeme_of_mem hline htoken).exists_integerLiteral hkind hflag
  refine ⟨value, fun other => ⟨fun hother => hother.unique hliteral, ?_⟩,
    operandOf_of_integerLiteral hkind hflag hliteral, ?_⟩
  · rintro rfl
    exact hliteral
  · rw [hliteral.readNumeral, upTo]
    split <;> simp

/-- An integer that stands for 255, behind a name of four letters. -/
def separatedInteger : Token := ⟨.integer, textSymbols "0X_f_F", ⟨5, 1, 6⟩, false⟩

/-- A hexadecimal literal with separators. -/
theorem operandOf_integer_of_separated :
    operandOf separatedInteger = .ok ⟨.immediate 255, ⟨5, 1, 6⟩⟩ := by
  have hline : ⟨[⟨.identifier, textSymbols "push", .start, false⟩, separatedInteger], []⟩ ∈
      (Source.ofBytes (utf8Bytes "push 0X_f_F") none).lines := by
    decide +kernel
  obtain ⟨value, hvalue, hoperand, -⟩ := operandOf_integer hline (.tail _ (.head _)) rfl rfl
  have hdigits : DigitRun 16 ['_', 'f', '_', 'F'] [15, 15] :=
    .separated ⟨by decide, .inl rfl⟩ (.separated ⟨by decide, .inr rfl⟩ .done)
  have hletter : Radix.ofLetter? 'X' = some .hexadecimal := rfl
  have hliteral : IntegerLiteral separatedInteger.chars 255 := .marked hletter hdigits (by decide)
  rw [hoperand, ← (hvalue 255).mp hliteral]
  rfl

/-! ### Characters -/

/-- The text, and a quote behind it. -/
def untilQuote (text : List Char) (rest : List Symbol) : List Symbol :=
  text.map .char ++ .char '\'' :: rest

theorem readProblems_untilQuote {text : List Char} (hclean : Clean text) (rest : List Symbol) :
    readProblems failure (untilQuote text rest) = [] := by
  cases text with
  | nil => rfl
  | cons c text =>
      have hother : c ≠ '\x00' := fun hsame => hclean (hsame ▸ List.mem_cons_self)
      exact if_neg hother

namespace LiteralReading

theorem advance_untilQuote {text : List Char} (hclean : Clean text) (taken : Nat) (symbol : Symbol)
    (rest : List Symbol) :
    (⟨taken, [], symbol :: untilQuote text rest⟩ : LiteralReading).advance failure =
      ⟨taken + 1, [], untilQuote text rest⟩ := by
  simp only [advance, readProblems_untilQuote hclean, List.append_nil]

theorem isOctalDigit_of_isDigit {c : Char} {value : Nat} (hdigit : IsDigit 8 c value) :
    isOctalDigit c = true ∧ c ∉ ['a', 'b', 'f', 'n', 'r', 't', 'v', '\\', '\''] := by
  have hall : ∀ value < 8, (Nat.digitChar value).toUpper = Nat.digitChar value ∧
      isOctalDigit (Nat.digitChar value) = true ∧
      Nat.digitChar value ∉ ['a', 'b', 'f', 'n', 'r', 't', 'v', '\\', '\''] := by decide
  obtain ⟨hsame, hoctal⟩ := hall value hdigit.1
  rcases hdigit.2 with rfl | rfl
  · exact hoctal
  · rwa [hsame]

/-- The digits of an escape are passed, as many as it asks for. -/
theorem escapeDigits_untilQuote {isDigit : Char → Bool} {base count number : Nat}
    {digits : List Char} (hdigits : Digits base count digits number)
    (hdigit : ∀ c value, IsDigit base c value → isDigit c = true) (hclean : Clean digits)
    (taken : Nat) (rest : List Symbol) :
    (⟨taken, [], untilQuote digits rest⟩ : LiteralReading).escapeDigits failure isDigit count =
      ⟨taken + digits.length, [], untilQuote [] rest⟩ := by
  obtain ⟨rfl, values, hvalues, -⟩ := hdigits
  induction hvalues generalizing taken with
  | nil => rfl
  | @cons c value digits values hvalue _ ih =>
      have htail : Clean digits := fun hmem => hclean (List.mem_cons_of_mem c hmem)
      rw [List.length_cons, escapeDigits]
      simp only [untilQuote, List.map_cons, List.cons_append, if_pos (hdigit c value hvalue)]
      rw [← untilQuote, advance_untilQuote htail, ih htail, Nat.add_assoc, Nat.add_comm 1]
      rfl

/-- An escape is passed up to the quote. -/
theorem escape_untilQuote {tail : List Char} {value : Nat}
    (hvalue : CodeElement ('\\' :: tail) value ∨ ByteElement ('\\' :: tail) value)
    (hclean : Clean tail) (taken : Nat) (rest : List Symbol) :
    (⟨taken, [], untilQuote tail rest⟩ : LiteralReading).escape failure =
      ⟨taken + tail.length, [], untilQuote [] rest⟩ := by
  have hhex : ∀ c value, IsDigit 16 c value → isHexDigit c = true :=
    fun c value hdigit => (hdigit.isHexDigit (Nat.le_refl 16)).1
  have hmarked {letter : Char} {count number : Nat} {digits : List Char}
      (hdigits : Digits 16 count digits number) (hclean : Clean (letter :: digits)) :
      escapeDigits failure isHexDigit count
          (advance failure ⟨taken, [], untilQuote (letter :: digits) rest⟩) =
        ⟨taken + (letter :: digits).length, [], untilQuote [] rest⟩ := by
    have htail : Clean digits := fun hmem => hclean (List.mem_cons_of_mem letter hmem)
    rw [untilQuote, List.map_cons, List.cons_append, ← untilQuote, advance_untilQuote htail,
      escapeDigits_untilQuote hdigits hhex htail, List.length_cons, Nat.add_assoc, Nat.add_comm 1]
  rcases hvalue with hcode | hbyte
  · cases hcode with
    | plain hother => exact absurd rfl hother.2.1
    | @letter c code hletter =>
        have hmem : c ∈ ['a', 'b', 'f', 'n', 'r', 't', 'v', '\\', '\''] :=
          List.mem_map_of_mem (f := Prod.fst) hletter
        rw [escape]
        simp only [untilQuote, List.map_cons, List.cons_append, if_pos hmem]
        exact advance_untilQuote (by simp [Clean]) taken (.char c) rest
    | short hdigits => exact hmarked hdigits hclean
    | long hdigits => exact hmarked hdigits hclean
  · cases hbyte with
    | hexadecimal hdigits => exact hmarked hdigits hclean
    | octal hdigits =>
        have hpassed : escapeDigits failure isOctalDigit 3 _ = _ :=
          escapeDigits_untilQuote hdigits (fun c value hdigit => (isOctalDigit_of_isDigit hdigit).1)
            hclean taken rest
        obtain ⟨hlength, values, hvalues, -⟩ := hdigits
        cases hvalues with
        | nil => cases hlength
        | cons hdigit _ =>
            obtain ⟨hoctal, hletter⟩ := isOctalDigit_of_isDigit hdigit
            rw [← hpassed, escape]
            simp only [untilQuote, List.map_cons, List.cons_append, if_neg hletter, if_pos hoctal]

/-- What stands between the quotes is passed as one element. -/
theorem elements_untilQuote {body : List Char} {value : Nat}
    (hvalue : CodeElement body value ∨ ByteElement body value) (hclean : Clean body)
    (taken : Nat) (rest : List Symbol) :
    (⟨taken, [], untilQuote body rest⟩ : LiteralReading).elements failure 0 =
      (1, ⟨taken + body.length, [], untilQuote [] rest⟩) := by
  have hend (taken : Nat) : (⟨taken, [], untilQuote [] rest⟩ : LiteralReading).elements failure 1 =
      (1, ⟨taken, [], untilQuote [] rest⟩) := by
    rw [elements_of_cons rfl, if_pos rfl]
  cases body with
  | nil => rcases hvalue with hcode | hbyte <;> contradiction
  | cons first tail =>
      have htail : Clean tail := fun hmem => hclean (List.mem_cons_of_mem first hmem)
      have hadvance : advance failure ⟨taken, [], untilQuote (first :: tail) rest⟩ =
          ⟨taken + 1, [], untilQuote tail rest⟩ :=
        advance_untilQuote htail taken (.char first) rest
      by_cases hescape : first = '\\'
      · subst hescape
        rw [elements_of_cons rfl, if_neg (by decide), if_neg (by decide), if_pos rfl, hadvance,
          escape_untilQuote hvalue htail, hend, List.length_cons, Nat.add_assoc, Nat.add_comm 1]
      · obtain ⟨hother, rfl⟩ : (first ≠ '\'' ∧ first ≠ '\n') ∧ tail = [] := by
          rcases hvalue with hcode | hbyte
          · cases hcode with
            | plain hother => exact ⟨⟨hother.1, hother.2.2⟩, rfl⟩
            | _ => exact absurd rfl hescape
          · cases hbyte <;> exact absurd rfl hescape
        rw [elements_of_cons rfl, if_neg (by simpa using hother.1),
          if_neg (by simpa using hother.2),
          if_neg (by simpa using hescape), hadvance, hend]
        rfl

end LiteralReading

/-- A character literal is read as one token, and nothing is noticed of it but of what follows. -/
theorem lexeme_of_element {body : List Char} {value : Nat}
    (hvalue : CodeElement body value ∨ ByteElement body value) (hclean : Clean body)
    (rest : List Symbol) :
    lexeme failure (.char '\'') (untilQuote body rest) =
      ⟨.character, ('\'' :: (body ++ ['\''])).map .char, readProblems failure rest, rest⟩ := by
  have helements : (⟨1, readProblems failure (untilQuote body rest), untilQuote body rest⟩ :
      LiteralReading).elements failure 0 = (1, ⟨1 + body.length, [], untilQuote [] rest⟩) := by
    rw [readProblems_untilQuote hclean, LiteralReading.elements_untilQuote hvalue hclean]
  have htake : (Symbol.char '\'' :: untilQuote body rest).take (1 + body.length + 1) =
      ('\'' :: (body ++ ['\''])).map .char := by
    have hsplit : Symbol.char '\'' :: untilQuote body rest =
        ('\'' :: (body ++ ['\''])).map .char ++ rest := by simp [untilQuote]
    rw [hsplit, List.take_left' (by simp; omega)]
  have hlexeme : lexeme failure (.char '\'') (untilQuote body rest) =
      characterLexeme failure (untilQuote body rest) := rfl
  rw [hlexeme, characterLexeme_of_elements helements]
  exact congrArg (Lexeme.mk .character · (readProblems failure rest) rest) htake

/-- A character literal is the operand of the code that it is read as, if that fits. -/
theorem operandOf_of_readAs {token : Token} (hkind : token.kind = .character)
    (hflag : token.flagged = false) {body : List Char} {code : Nat}
    (hchars : token.chars = '\'' :: (body ++ ['\''])) (hread : ReadAs body code) :
    operandOf token = token.byteOperand code := by
  have hliteral : characterLiteral? token.chars = some code :=
    characterLiteral?_eq_some_iff.mpr ⟨body, hchars, hread⟩
  rw [operandOf, hflag, if_neg Bool.false_ne_true, hkind]
  simp only [hliteral, Token.byteOperand, Nat.lt_succ_iff]

/-- A character literal is read as one token. As an operand it gives its value, or is refused
because its value is too large, unless it is an escape for a byte beyond ASCII: then it is refused
whatever the byte. -/
theorem operandOf_character {body : List Char} {value : Nat}
    (hvalue : CodeElement body value ∨ ByteElement body value) (hclean : Clean body) :
    (∀ failure rest, lexeme failure (.char '\'') (untilQuote body rest) =
      ⟨.character, ('\'' :: (body ++ ['\''])).map .char, readProblems failure rest, rest⟩) ∧
    ∀ token : Token, token.kind = .character → token.flagged = false →
      token.chars = '\'' :: (body ++ ['\'']) →
        (operandOf token = token.byteOperand value ↔ ¬ (ByteElement body value ∧ 128 ≤ value)) ∧
        (ByteElement body value ∧ 128 ≤ value →
          operandOf token = .error [⟨token.place, .valueRange token.string⟩]) := by
  refine ⟨fun failure rest => lexeme_of_element hvalue hclean rest, ?_⟩
  intro token hkind hflag hchars
  by_cases hbeyond : ByteElement body value ∧ 128 ≤ value
  · obtain ⟨hbyte, hle⟩ := hbeyond
    have hread : ReadAs body 0xFFFD := .inr ⟨value, hbyte, (if_neg (Nat.not_lt.mpr hle)).symm⟩
    have hrefused : operandOf token = .error [⟨token.place, .valueRange token.string⟩] :=
      operandOf_of_readAs hkind hflag hchars hread
    refine ⟨iff_of_false ?_ (not_not_intro ⟨hbyte, hle⟩), fun _ => hrefused⟩
    simp [hrefused, Token.byteOperand, Nat.le_of_lt_succ hbyte.lt]
  · have hread : ReadAs body value := by
      rcases hvalue with hcode | hbyte
      · exact .inl hcode
      · exact .inr ⟨value, hbyte, (if_pos (by simpa [hbyte] using hbeyond)).symm⟩
    refine ⟨iff_of_true (operandOf_of_readAs hkind hflag hchars hread) hbeyond, ?_⟩
    exact fun hbyte => absurd hbyte hbeyond

/-- A character literal for the byte 255, behind a name of four letters. -/
def escapedByte : Token := ⟨.character, textSymbols "'\\xff'", ⟨5, 1, 6⟩, false⟩

/-- The same character written in two ways, of which one is refused. -/
theorem operandOf_character_of_escapes :
    operandOf ⟨.character, textSymbols "'\\u00fF'", ⟨5, 1, 6⟩, false⟩ =
        .ok ⟨.immediate 255, ⟨5, 1, 6⟩⟩ ∧
      operandOf escapedByte = .error [⟨⟨5, 1, 6⟩, .valueRange "'\\xff'"⟩] := by
  have hzero : IsDigit 16 '0' 0 := ⟨by decide, .inl rfl⟩
  have hlower : IsDigit 16 'f' 15 := ⟨by decide, .inl rfl⟩
  have hupper : IsDigit 16 'F' 15 := ⟨by decide, .inr rfl⟩
  have hcode : CodeElement ['\\', 'u', '0', '0', 'f', 'F'] 255 :=
    .short ⟨rfl, [0, 0, 15, 15],
      .cons hzero (.cons hzero (.cons hlower (.cons hupper .nil))), rfl⟩ (by decide)
  have hbyte : ByteElement ['\\', 'x', 'f', 'f'] 255 :=
    .hexadecimal ⟨rfl, [15, 15], .cons hlower (.cons hlower .nil), rfl⟩
  refine ⟨?_, ?_⟩
  · refine ((operandOf_character (.inl hcode) (by simp [Clean])).2 _ rfl rfl rfl).1.mpr ?_
    rintro ⟨hother, -⟩
    cases hother with
    | octal hdigits => exact absurd hdigits.1 (by decide)
  · exact ((operandOf_character (.inr hbyte) (by simp [Clean])).2 escapedByte rfl rfl rfl).2
      ⟨hbyte, by decide⟩

/-- A character literal for a byte is refused as too large. -/
theorem operandOf_escapedByte :
    ByteElement ['\\', 'x', 'f', 'f'] 255 ∧
      (∃ line ∈ (Source.ofBytes (utf8Bytes "outc '\\xff'") none).lines, escapedByte ∈ line.tokens) ∧
      operandOf escapedByte ≠ escapedByte.byteOperand 255 ∧
      (Source.ofBytes (utf8Bytes "outc '\\xff'") none).parse.notices =
        [⟨⟨5, 1, 6⟩, .valueRange "'\\xff'"⟩] := by
  have hdigit : IsDigit 16 'f' 15 := ⟨by decide, .inl rfl⟩
  refine ⟨.hexadecimal ⟨rfl, [15, 15], .cons hdigit (.cons hdigit .nil), rfl⟩, ?_, ?_, ?_⟩
  · decide +kernel
  · decide +kernel
  · decide +kernel

end Octet
