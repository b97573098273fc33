import Mathlib.Data.List.TakeWhile
import Octet.Proofs.Source.Scanning

/-! # Reading without a notice

A source that nothing is noticed about can be read without keeping count of places:
blanks are passed, lexemes become words, line breaks end lines and comments are
skipped. `Lexes` says so with one rule for each of these. It holds of every source whose
lines come without notices, and tells what these lines are. In such a source the end
has been reached, and every symbol is a character that can stand in a source.
-/

namespace Octet

variable {failure : Option String}

/-- A symbol is noticed exactly if there is something wrong with it. -/
theorem readNotices_eq_nil_iff {previous place : Place} {symbols : List Symbol} :
    readNotices failure previous place symbols = [] ↔ readProblems failure symbols = [] :=
  List.map_eq_nil_iff

/-! ### Passing symbols -/

/-- The symbols before `after` are passed, and nothing is noticed of what is read behind them. -/
inductive Passes (failure : Option String) (skips : Symbol → Bool) :
    List Symbol → List Symbol → Prop
  | stop {symbols : List Symbol} (hstop : ∀ symbol ∈ symbols.head?, skips symbol = false) :
      Passes failure skips symbols symbols
  | pass {symbol : Symbol} {rest after : List Symbol} (hskips : skips symbol = true)
      (hread : readProblems failure rest = []) (hrest : Passes failure skips rest after) :
      Passes failure skips (symbol :: rest) after

/-- Skipping without a notice passes over symbols that are fine. -/
theorem passes_of_passWhile {skips : Symbol → Bool} {notices : List Notice} {place : Place}
    {symbols : List Symbol}
    (hnotices : (passWhile failure skips notices place symbols).notices = []) :
    notices = [] ∧
      Passes failure skips symbols (passWhile failure skips notices place symbols).symbols := by
  induction symbols generalizing notices place with
  | nil => exact ⟨hnotices, .stop (by simp)⟩
  | cons symbol rest ih =>
      unfold passWhile at hnotices ⊢
      split at hnotices
      next hskips =>
        obtain ⟨hall, hrest⟩ := ih hnotices
        obtain ⟨hread, hbefore⟩ := List.append_eq_nil_iff.mp hall
        rw [List.reverse_eq_nil_iff, readNotices_eq_nil_iff] at hread
        rw [if_pos hskips]
        exact ⟨hbefore, .pass hskips hread hrest⟩
      next hstop =>
        rw [if_neg hstop]
        exact ⟨hnotices, .stop (by simpa using hstop)⟩

/-- Symbols that can be passed over are skipped without a notice. -/
theorem Passes.exists_passWhile {skips : Symbol → Bool} {symbols after : List Symbol}
    (hpasses : Passes failure skips symbols after) (notices : List Notice) (place : Place) :
    ∃ next, passWhile failure skips notices place symbols = ⟨notices, next, after⟩ := by
  induction hpasses generalizing place with
  | @stop symbols hstop =>
      cases symbols with
      | nil => exact ⟨place, rfl⟩
      | cons symbol rest =>
          have hnot : skips symbol = false := hstop symbol rfl
          exact ⟨place, by simp [passWhile, hnot]⟩
  | pass hskips hread hrest ih =>
      obtain ⟨next, hnext⟩ := ih (place.after _)
      refine ⟨next, ?_⟩
      rw [passWhile, if_pos hskips]
      simpa only [readNotices_eq_nil_iff.mpr hread, List.reverse_nil, List.nil_append] using hnext

/-! ### Tokens -/

/-- What comes next on a line when there is nothing to notice about the line so far. -/
theorem exists_passes_of_scanToken {notices early : List Notice} {place : Place}
    {symbols : List Symbol}
    (hnotices : (scanToken failure early place symbols).notices.reverse ++ notices = []) :
    notices = [] ∧ early = [] ∧ ∃ behind, Passes failure isBlank symbols behind ∧
      ((behind = [] ∧ (scanToken failure early place symbols).token = none) ∨
        ∃ first rest token, behind = first :: rest ∧
          lexeme failure first rest = ⟨token.kind, token.text, [],
            (scanToken failure early place symbols).symbols⟩ ∧
          (scanToken failure early place symbols).token = some token) := by
  obtain ⟨hscanned, hbefore⟩ := List.append_eq_nil_iff.mp hnotices
  rw [List.reverse_eq_nil_iff] at hscanned
  refine ⟨hbefore, ?_⟩
  have hpassed : (passWhile failure isBlank early.reverse place symbols).notices = [] →
      early.reverse = [] ∧ Passes failure isBlank symbols
        (passWhile failure isBlank early.reverse place symbols).symbols := passes_of_passWhile
  simp only [scanToken] at hscanned ⊢
  generalize passWhile failure isBlank early.reverse place symbols = passage at *
  obtain ⟨passed, next, behind⟩ := passage
  cases behind with
  | nil =>
      obtain ⟨hearly, hpasses⟩ := hpassed (by simpa using hscanned)
      exact ⟨List.reverse_eq_nil_iff.mp hearly, [], hpasses, .inl ⟨rfl, rfl⟩⟩
  | cons first rest =>
      obtain ⟨hblank, hproblems⟩ := List.append_eq_nil_iff.mp hscanned
      obtain ⟨hearly, hpasses⟩ := hpassed (List.reverse_eq_nil_iff.mp hblank)
      refine ⟨List.reverse_eq_nil_iff.mp hearly, first :: rest, hpasses, .inr ?_⟩
      refine ⟨first, rest, _, rfl, ?_, rfl⟩
      rw [← List.map_eq_nil_iff.mp hproblems]

/-- After blanks, a lexeme without problems is scanned as one token. -/
theorem exists_scanToken_of_passes {symbols rest after text : List Symbol} {first : Symbol}
    {kind : TokenKind} (hblank : Passes failure isBlank symbols (first :: rest))
    (hlexeme : lexeme failure first rest = ⟨kind, text, [], after⟩) (place : Place) :
    ∃ spot, scanToken failure [] place symbols =
      ⟨[], some ⟨kind, text, spot, false⟩, spot.afterAll text, after⟩ := by
  obtain ⟨spot, hpassage⟩ := hblank.exists_passWhile [] place
  exact ⟨spot, by simp [scanToken, hpassage, hlexeme]⟩

/-! ### Lines -/

/-- The symbols are the words of some lines, the first of which has been begun. -/
inductive Lexes (failure : Option String) : List Symbol → List (List Word) → Prop
  | finish {symbols : List Symbol} (hblank : Passes failure isBlank symbols []) :
      Lexes failure symbols [[]]
  | word {symbols rest after text : List Symbol} {first : Symbol} {kind : TokenKind}
      {words : List Word} {lines : List (List Word)}
      (hblank : Passes failure isBlank symbols (first :: rest))
      (hlexeme : lexeme failure first rest = ⟨kind, text, [], after⟩)
      (hkind : kind ≠ .single '\n' ∧ kind ≠ .single ';' ∧ kind ≠ .single '#')
      (hafter : Lexes failure after (words :: lines)) :
      Lexes failure symbols ((⟨kind, text.map Symbol.toChar⟩ :: words) :: lines)
  | newline {symbols rest after text : List Symbol} {first : Symbol} {lines : List (List Word)}
      (hblank : Passes failure isBlank symbols (first :: rest))
      (hlexeme : lexeme failure first rest = ⟨.single '\n', text, [], after⟩)
      (hafter : Lexes failure after lines) : Lexes failure symbols ([] :: lines)
  | comment {symbols rest after behind text : List Symbol} {first : Symbol} {kind : TokenKind}
      {lines : List (List Word)} (hblank : Passes failure isBlank symbols (first :: rest))
      (hlexeme : lexeme failure first rest = ⟨kind, text, [], after⟩)
      (hkind : kind = .single ';' ∨ kind = .single '#')
      (hskipped : Passes failure insideComment after behind)
      (hbehind : Lexes failure behind lines) : Lexes failure symbols lines

theorem Lexes.exists_cons {symbols : List Symbol} {lines : List (List Word)}
    (hlexes : Lexes failure symbols lines) : ∃ words others, lines = words :: others := by
  induction hlexes with
  | finish _ => exact ⟨[], [], rfl⟩
  | word _ _ _ _ _ => exact ⟨_, _, rfl⟩
  | newline _ _ _ _ => exact ⟨_, _, rfl⟩
  | comment _ _ _ _ _ ih => exact ih

theorem startsComment_iff {token : Token} :
    startsComment token = true ↔ token.kind = .single ';' ∨ token.kind = .single '#' := by
  simp [startsComment]

/-- Lines that come without notices are the words of what is read. -/
theorem exists_lexes_of_linesFrom {lines : List SourceLine} {tokens : List Token}
    {notices early : List Notice} {place : Place} {symbols : List Symbol}
    (hlines : ∀ line ∈ linesFrom failure lines tokens notices early place symbols,
      line.notices = []) :
    notices = [] ∧ early = [] ∧ (∀ line ∈ lines, line.notices = []) ∧
      ∃ words, Lexes failure symbols words := by
  -- a notice is never taken back, so there is none at any point on the way
  fun_induction linesFrom failure lines tokens notices early place symbols with
  | case1 lines tokens notices early place symbols scanned noticed htoken =>
      simp only [List.mem_reverse, List.forall_mem_cons, List.reverse_eq_nil_iff] at hlines
      obtain ⟨hnoticed, hbefore⟩ := hlines
      obtain ⟨hnotices, hearly, behind, hblank, hnext⟩ := exists_passes_of_scanToken hnoticed
      rcases hnext with ⟨rfl, -⟩ | ⟨_, _, token, -, -, hsome⟩
      · exact ⟨hnotices, hearly, hbefore, [[]], .finish hblank⟩
      · cases htoken.symm.trans hsome
  | case2 lines tokens notices early place symbols scanned noticed token htoken hkind ih =>
      simp only [List.unattach_reverse, List.unattach_attach, List.forall_mem_cons,
        List.reverse_eq_nil_iff] at ih
      obtain ⟨-, -, ⟨hnoticed, hbefore⟩, words, hafter⟩ := ih hlines
      obtain ⟨hnotices, hearly, behind, hblank, hnext⟩ := exists_passes_of_scanToken hnoticed
      rcases hnext with ⟨-, hnone⟩ | ⟨first, rest, other, rfl, hlexeme, hsome⟩
      · cases htoken.symm.trans hnone
      · obtain rfl := Option.some.inj (htoken.symm.trans hsome)
        rw [hkind] at hlexeme
        exact ⟨hnotices, hearly, hbefore, [] :: words, .newline hblank hlexeme hafter⟩
  | case3 lines tokens notices early place symbols scanned noticed token htoken _ hcomment
      passage ih =>
      obtain ⟨hpassage, -, hbefore, words, hbehind⟩ := ih hlines
      obtain ⟨hnoticed, hskipped⟩ := passes_of_passWhile hpassage
      obtain ⟨hnotices, hearly, behind, hblank, hnext⟩ := exists_passes_of_scanToken hnoticed
      rcases hnext with ⟨-, hnone⟩ | ⟨first, rest, other, rfl, hlexeme, hsome⟩
      · cases htoken.symm.trans hnone
      · obtain rfl := Option.some.inj (htoken.symm.trans hsome)
        exact ⟨hnotices, hearly, hbefore, words,
          .comment hblank hlexeme (startsComment_iff.mp hcomment) hskipped hbehind⟩
  | case4 lines tokens notices early place symbols scanned noticed token htoken hkind hcomment
      ih =>
      obtain ⟨hnoticed, -, hbefore, lexed, hafter⟩ := ih hlines
      obtain ⟨hnotices, hearly, behind, hblank, hnext⟩ := exists_passes_of_scanToken hnoticed
      rcases hnext with ⟨-, hnone⟩ | ⟨first, rest, other, rfl, hlexeme, hsome⟩
      · cases htoken.symm.trans hnone
      · obtain rfl := Option.some.inj (htoken.symm.trans hsome)
        obtain ⟨words, others, rfl⟩ := hafter.exists_cons
        rw [startsComment_iff, not_or] at hcomment
        exact ⟨hnotices, hearly, hbefore, _, .word hblank hlexeme ⟨hkind, hcomment⟩ hafter⟩

/-- The tokens of the line are the words, and there is nothing to notice about it. -/
def SourceLine.Says (line : SourceLine) (words : List Word) : Prop :=
  Spells line.tokens words ∧ line.notices = []

theorem Spells.concat {tokens : List Token} {words : List Word}
    (hspells : Spells tokens.reverse words) (kind : TokenKind) (text : List Symbol)
    (place : Place) :
    Spells ((⟨kind, text, place, false⟩ : Token) :: tokens).reverse
      (words ++ [⟨kind, text.map Symbol.toChar⟩]) := by
  rw [List.reverse_cons]
  refine ⟨?_, List.forall_mem_append.mpr ⟨hspells.2, by simp⟩⟩
  rw [List.map_append, hspells.1]
  rfl

/-- What is read are lines that say the words, the first of them behind the tokens it has got
already. -/
theorem Lexes.exists_linesFrom {symbols : List Symbol} {lexed : List (List Word)}
    (hlexes : Lexes failure symbols lexed) {before words : List Word} {others : List (List Word)}
    (hlexed : lexed = words :: others) {tokens : List Token}
    (hspells : Spells tokens.reverse before) (lines : List SourceLine) (place : Place) :
    ∃ read, linesFrom failure lines tokens [] [] place symbols = lines.reverse ++ read ∧
      List.Forall₂ SourceLine.Says read ((before ++ words) :: others) := by
  -- along the reading; `before` grows by a word at each token, and starts anew at a line break
  induction hlexes generalizing before words others tokens lines place with
  | @finish symbols hblank =>
      obtain ⟨rfl, rfl⟩ := List.cons.inj hlexed
      obtain ⟨next, hpassage⟩ := hblank.exists_passWhile [] place
      have hscan : scanToken failure [] place symbols = ⟨[], none, next, []⟩ := by
        simp only [scanToken, List.reverse_nil, hpassage]
      refine ⟨[⟨tokens.reverse, []⟩], ?_, ?_⟩
      · rw [linesFrom, hscan]
        simp
      · rw [List.append_nil]
        exact .cons ⟨hspells, rfl⟩ .nil
  | @word _ _ _ text _ _ _ _ hblank hlexeme hkind _ ih =>
      obtain ⟨rfl, rfl⟩ := List.cons.inj hlexed
      obtain ⟨spot, hscan⟩ := exists_scanToken_of_passes hblank hlexeme place
      obtain ⟨read, hread, hwording⟩ := ih rfl (hspells.concat _ _ spot) lines (spot.afterAll text)
      refine ⟨read, ?_, by simpa using hwording⟩
      rw [← hread, linesFrom, hscan]
      simp [startsComment, hkind]
  | @newline _ _ _ text _ _ hblank hlexeme hafter ih =>
      obtain ⟨rfl, rfl⟩ := List.cons.inj hlexed
      obtain ⟨spot, hscan⟩ := exists_scanToken_of_passes hblank hlexeme place
      obtain ⟨words, others, rfl⟩ := hafter.exists_cons
      have hempty : Spells ([] : List Token).reverse [] := ⟨rfl, by simp⟩
      obtain ⟨read, hread, hwording⟩ :=
        ih rfl hempty (⟨tokens.reverse, []⟩ :: lines) (spot.afterAll text)
      refine ⟨⟨tokens.reverse, []⟩ :: read, ?_, ?_⟩
      · rw [linesFrom, hscan]
        simpa using hread
      · rw [List.append_nil]
        exact .cons ⟨hspells, rfl⟩ hwording
  | @comment _ _ _ _ text _ _ _ hblank hlexeme hkind hskipped _ ih =>
      obtain ⟨spot, hscan⟩ := exists_scanToken_of_passes hblank hlexeme place
      obtain ⟨next, hpassage⟩ := hskipped.exists_passWhile [] (spot.afterAll text)
      obtain ⟨read, hread, hwording⟩ := ih hlexed hspells lines next
      refine ⟨read, ?_, hwording⟩
      rw [← hread, linesFrom, hscan]
      rcases hkind with rfl | rfl <;> simp [startsComment, hpassage]

/-! ### All that is read -/

/-- There is nothing to notice about any of the symbols when it is read, nor about their end. -/
def Readable (failure : Option String) (symbols : List Symbol) : Prop :=
  ∀ rest, rest <:+ symbols → readProblems failure rest = []

theorem Readable.readProblems {symbols : List Symbol} (hreadable : Readable failure symbols) :
    readProblems failure symbols = [] :=
  hreadable symbols (List.suffix_refl symbols)

/-- A text is readable if its first symbol can be read and the rest is readable. -/
theorem readable_iff {symbols : List Symbol} :
    Readable failure symbols ↔
      readProblems failure symbols = [] ∧ Readable failure symbols.tail := by
  cases symbols with
  | nil => exact ⟨fun hreadable => ⟨hreadable.readProblems, hreadable⟩, And.right⟩
  | cons symbol rest =>
      simp only [Readable, List.suffix_cons_iff, forall_eq_or_imp, List.tail_cons]

theorem endProblems_eq_nil_iff : endProblems failure = [] ↔ failure = none := by
  cases failure <;> simp [endProblems]

theorem readable_nil_iff : Readable failure [] ↔ failure = none := by
  simp only [Readable, List.suffix_nil, forall_eq]
  exact endProblems_eq_nil_iff

/-- There is nothing to notice about a symbol when it is read. -/
def Symbol.Fine (symbol : Symbol) : Prop := ∃ c, c ≠ '\x00' ∧ symbol = .char c

theorem readProblems_cons_eq_nil_iff {symbol : Symbol} {rest : List Symbol} :
    readProblems failure (symbol :: rest) = [] ↔ symbol.Fine := by
  cases symbol with
  | char c => simp [readProblems, Symbol.Fine]
  | stray byte cut => simp [readProblems, Symbol.Fine]

theorem readable_cons_iff {symbol : Symbol} {rest : List Symbol} :
    Readable failure (symbol :: rest) ↔ symbol.Fine ∧ Readable failure rest := by
  rw [readable_iff, readProblems_cons_eq_nil_iff, List.tail_cons]

/-- A part of a text can be read exactly if its symbols are fine. -/
theorem readable_append_iff {front rest : List Symbol} :
    Readable failure (front ++ rest) ↔
      (∀ symbol ∈ front, symbol.Fine) ∧ Readable failure rest := by
  induction front with
  | nil => simp
  | cons symbol front ih =>
      rw [List.cons_append, readable_cons_iff, ih, List.forall_mem_cons, and_assoc]

/-- What was passed over can be read. -/
theorem Passes.readable {skips : Symbol → Bool} {symbols after : List Symbol}
    (hpasses : Passes failure skips symbols after) (hread : readProblems failure symbols = []) :
    readProblems failure after = [] ∧ (Readable failure after → Readable failure symbols) := by
  induction hpasses with
  | stop _ => exact ⟨hread, id⟩
  | pass _ hnext _ ih =>
      obtain ⟨hafter, hrest⟩ := ih hnext
      exact ⟨hafter, fun hreadable => readable_iff.mpr ⟨hread, hrest hreadable⟩⟩

/-! ### Lexemes -/

/-- The first symbol tells what lexeme there is: a name, an integer, a character literal, or the
symbol alone. -/
theorem lexeme_cases (failure : Option String) (first : Symbol) :
    (∀ rest, lexeme failure first rest =
      ⟨.identifier, first :: rest.takeWhile continuesName,
        readProblems failure (rest.dropWhile continuesName), rest.dropWhile continuesName⟩) ∨
    (∃ c, lexeme failure first = integerLexeme failure c) ∨
    lexeme failure first = characterLexeme failure ∨
    ∀ rest, lexeme failure first rest =
      ⟨.single first.toChar, [first], readProblems failure rest, rest⟩ := by
  by_cases hname : startsName first = true
  · exact .inl fun rest => by simp only [lexeme, hname, ↓reduceIte]
  cases first with
  | stray byte cut => exact .inr (.inr (.inr fun rest => rfl))
  | char c =>
      by_cases hdigit : c.isDigit = true
      · refine .inr (.inl ⟨c, funext fun rest => ?_⟩)
        simp only [lexeme, hname, hdigit, Bool.false_eq_true, ↓reduceIte]
      by_cases hquote : c = '\''
      · refine .inr (.inr (.inl (funext fun rest => ?_)))
        rw [lexeme, if_neg hname]
        exact (if_neg hdigit).trans (if_pos hquote)
      · refine .inr (.inr (.inr fun rest => ?_))
        simp only [lexeme, hname, hdigit, hquote, Bool.false_eq_true, ↓reduceIte, Symbol.toChar]

theorem fine_of_continuesName {symbol : Symbol} (hname : continuesName symbol = true) :
    symbol.Fine := by
  cases symbol with
  | char c =>
      refine ⟨c, ?_, rfl⟩
      rintro rfl
      exact absurd hname (by decide)
  | stray byte cut => cases hname

theorem fine_of_isBlank {symbol : Symbol} (hblank : isBlank symbol = true) : symbol.Fine := by
  cases symbol with
  | char c =>
      refine ⟨c, ?_, rfl⟩
      rintro rfl
      exact absurd hblank (by decide)
  | stray byte cut => cases hblank

theorem fine_of_mem_digitSpan {radix : Radix} {symbols : List Symbol} {symbol : Symbol}
    (hmem : symbol ∈ digitSpan radix symbols) : symbol.Fine := by
  have hdigit := List.mem_takeWhile_imp hmem
  cases symbol with
  | char c =>
      refine ⟨c, ?_, rfl⟩
      rintro rfl
      cases radix <;> exact absurd hdigit (by decide)
  | stray byte cut => cases hdigit

/-- The letters that name a base stand behind the zero, and can be read. -/
theorem integerRadix_mark (first : Char) (rest : List Symbol) :
    (integerRadix first rest).2.1 <+: rest ∧
      ∀ symbol ∈ (integerRadix first rest).2.1, symbol.Fine := by
  unfold integerRadix
  split
  next =>
    split
    next letter tail =>
      split
      next radix hletter =>
        refine ⟨⟨tail, rfl⟩, List.forall_mem_singleton.mpr ⟨letter, ?_, rfl⟩⟩
        rintro rfl
        cases hletter
      next => simp
    next => simp
  next => simp

/-- The text of an integer and what is behind it make up what was read. -/
theorem integerLexeme_split (failure : Option String) (first : Char) (rest : List Symbol) :
    ∃ front, rest = front ++ (integerLexeme failure first rest).rest ∧
      ∀ symbol ∈ front, symbol.Fine := by
  obtain ⟨⟨tail, htail⟩, hmark⟩ := integerRadix_mark first rest
  simp only [integerLexeme]
  generalize integerRadix first rest = parts at *
  obtain ⟨radix, mark, hasDigit⟩ := parts
  subst htail
  simp only [List.drop_left, ← List.drop_drop]
  have hdigits : digitSpan radix tail <+: tail := List.takeWhile_prefix _
  refine ⟨mark ++ digitSpan radix tail, ?_, ?_⟩
  · rw [List.append_assoc, List.prefix_iff_eq_append.mp hdigits]
  · exact List.forall_mem_append.mpr ⟨hmark, fun symbol => fine_of_mem_digitSpan⟩

namespace LiteralReading

/-- What follows the current symbol has been read without a notice if that holds later on and
nothing has been noticed until then. -/
def Leads (failure : Option String) (reading later : LiteralReading) : Prop :=
  later.problems = [] → reading.problems = [] ∧
    (Readable failure later.rest.tail → Readable failure reading.rest.tail)

theorem Leads.refl (reading : LiteralReading) : Leads failure reading reading :=
  fun hproblems => ⟨hproblems, id⟩

theorem Leads.trans {reading next later : LiteralReading} (hnext : Leads failure reading next)
    (hlater : Leads failure next later) : Leads failure reading later := fun hproblems =>
  have ⟨hbefore, hrest⟩ := hlater hproblems
  have ⟨hfirst, hall⟩ := hnext hbefore
  ⟨hfirst, hall ∘ hrest⟩

theorem leads_report (reading : LiteralReading) (problem : Problem) :
    Leads failure reading (reading.report problem) := fun hproblems =>
  absurd hproblems (by simp [report])

theorem leads_advance (reading : LiteralReading) :
    Leads failure reading (reading.advance failure) := by
  intro hproblems
  unfold advance at hproblems ⊢
  split at hproblems
  next hrest =>
    obtain ⟨hbefore, -⟩ := List.append_eq_nil_iff.mp hproblems
    simp [hbefore, hrest]
  next symbol rest hrest =>
    obtain ⟨hbefore, hread⟩ := List.append_eq_nil_iff.mp hproblems
    rw [hrest]
    exact ⟨hbefore, fun htail => readable_iff.mpr ⟨hread, htail⟩⟩

theorem leads_escapeDigits (isDigit : Char → Bool) (count : Nat) (reading : LiteralReading) :
    Leads failure reading (reading.escapeDigits failure isDigit count) := by
  induction count generalizing reading with
  | zero => exact .refl reading
  | succ count ih =>
      unfold escapeDigits
      split
      · split
        · exact (leads_advance reading).trans (ih _)
        · exact leads_report reading _
      · exact leads_report reading _

theorem leads_escape (reading : LiteralReading) :
    Leads failure reading (reading.escape failure) := by
  have hadvance : Leads failure reading (reading.advance failure) := leads_advance reading
  unfold escape
  split
  · repeat' split
    · exact hadvance
    · exact leads_escapeDigits _ _ _
    · exact hadvance.trans (leads_escapeDigits _ _ _)
    · exact hadvance.trans (leads_escapeDigits _ _ _)
    · exact hadvance.trans (leads_escapeDigits _ _ _)
    · exact leads_report reading _
  · exact leads_report reading _

/-- All that stands in a literal can be read if no problem was found. -/
theorem leads_elements (count : Nat) (reading : LiteralReading) :
    Leads failure reading (reading.elements failure count).2 := by
  fun_induction elements failure count reading with
  | case1 => exact leads_report _ _
  | case2 => exact .refl _
  | case3 => exact leads_report _ _
  | case4 _ reading _ _ _ _ ih =>
      exact ((leads_advance reading).trans (leads_escape _)).trans ih
  | case5 _ reading _ _ _ _ _ _ ih => exact (leads_advance reading).trans ih

end LiteralReading

theorem LiteralReading.readProblems_of_advance {reading : LiteralReading}
    (hproblems : (reading.advance failure).problems = []) :
    readProblems failure (reading.advance failure).rest = [] := by
  unfold advance at hproblems ⊢
  split at hproblems
  next hrest =>
    simp only [hrest]
    exact (List.append_eq_nil_iff.mp hproblems).2
  next => exact (List.append_eq_nil_iff.mp hproblems).2

/-- A character literal without problems can be read. -/
theorem readable_of_characterLexeme {rest : List Symbol}
    (hproblems : (characterLexeme failure rest).problems = []) :
    readProblems failure (characterLexeme failure rest).rest = [] ∧
      (Readable failure (characterLexeme failure rest).rest → Readable failure rest) := by
  have hread := LiteralReading.readProblems_of_advance hproblems
  refine ⟨hread, fun hreadable => ?_⟩
  have hleads : LiteralReading.Leads failure ⟨1, readProblems failure rest, rest⟩
      ⟨0, (characterLexeme failure rest).problems, (characterLexeme failure rest).rest⟩ := by
    simp only [characterLexeme]
    refine .trans (.trans (LiteralReading.leads_elements 0 _) ?_)
      (LiteralReading.leads_advance _)
    split
    · exact .refl _
    · exact LiteralReading.leads_report _ _
  obtain ⟨hopened, htail⟩ := hleads hproblems
  exact readable_iff.mpr ⟨hopened, htail (readable_iff.mp hreadable).2⟩

/-- An integer literal without problems can be read. -/
theorem readable_of_integerLexeme {first : Char} {rest : List Symbol}
    (hproblems : (integerLexeme failure first rest).problems = []) :
    readProblems failure (integerLexeme failure first rest).rest = [] ∧
      (Readable failure (integerLexeme failure first rest).rest → Readable failure rest) := by
  refine ⟨?_, fun hreadable => ?_⟩
  · simp only [integerLexeme, List.append_eq_nil_iff] at hproblems
    exact hproblems.1.1.1
  · obtain ⟨front, hsplit, hfine⟩ := integerLexeme_split failure first rest
    rw [hsplit]
    exact readable_append_iff.mpr ⟨hfine, hreadable⟩

/-- All that a lexeme was made from can be read if that is so behind it. -/
theorem readable_of_lexeme {first : Symbol} {rest after text : List Symbol} {kind : TokenKind}
    (hlexeme : lexeme failure first rest = ⟨kind, text, [], after⟩) :
    readProblems failure after = [] ∧ (Readable failure after → Readable failure rest) := by
  obtain ⟨hproblems, rfl⟩ : (lexeme failure first rest).problems = [] ∧
      (lexeme failure first rest).rest = after := by simp [hlexeme]
  rcases lexeme_cases failure first with hname | ⟨c, hinteger⟩ | hcharacter | hsingle
  · rw [hname] at hproblems ⊢
    refine ⟨hproblems, fun hreadable => ?_⟩
    have hsplit : rest.takeWhile continuesName ++ rest.dropWhile continuesName = rest :=
      List.takeWhile_append_dropWhile
    rw [← hsplit]
    exact readable_append_iff.mpr
      ⟨fun symbol hmem => fine_of_continuesName (List.mem_takeWhile_imp hmem), hreadable⟩
  · rw [hinteger] at hproblems ⊢
    exact readable_of_integerLexeme hproblems
  · rw [hcharacter] at hproblems ⊢
    exact readable_of_characterLexeme hproblems
  · rw [hsingle] at hproblems ⊢
    exact ⟨hproblems, id⟩

/-- In a source of which nothing is noticed, there is nothing to notice about any symbol. -/
theorem Lexes.readable {symbols : List Symbol} {lines : List (List Word)}
    (hlexes : Lexes failure symbols lines) (hread : readProblems failure symbols = []) :
    Readable failure symbols := by
  induction hlexes with
  | finish hblank =>
      obtain ⟨hend, hall⟩ := hblank.readable hread
      exact hall (readable_nil_iff.mpr (endProblems_eq_nil_iff.mp hend))
  | word hblank hlexeme _ _ ih =>
      obtain ⟨hfirst, hall⟩ := hblank.readable hread
      obtain ⟨hafter, hrest⟩ := readable_of_lexeme hlexeme
      exact hall (readable_iff.mpr ⟨hfirst, hrest (ih hafter)⟩)
  | newline hblank hlexeme _ ih =>
      obtain ⟨hfirst, hall⟩ := hblank.readable hread
      obtain ⟨hafter, hrest⟩ := readable_of_lexeme hlexeme
      exact hall (readable_iff.mpr ⟨hfirst, hrest (ih hafter)⟩)
  | comment hblank hlexeme _ hskipped _ ih =>
      obtain ⟨hfirst, hall⟩ := hblank.readable hread
      obtain ⟨hafter, hrest⟩ := readable_of_lexeme hlexeme
      obtain ⟨hbehind, hpassed⟩ := hskipped.readable hafter
      exact hall (readable_iff.mpr ⟨hfirst, hrest (hpassed (ih hbehind))⟩)

/-! ### Sources -/

namespace Source

/-- The symbols of a source behind its byte order mark. -/
def body (source : Source) : List Symbol :=
  match source.symbols with
  | .char '\ufeff' :: rest => rest
  | symbols => symbols

theorem body_of_mark {source : Source} {rest : List Symbol}
    (hsymbols : source.symbols = .char '\ufeff' :: rest) : source.body = rest := by
  simp only [body, hsymbols]

theorem body_of_head {source : Source} (hmark : source.symbols.head? ≠ some (.char '\ufeff')) :
    source.body = source.symbols := by
  unfold body
  split
  next rest hsymbols => exact absurd (by rw [hsymbols]; rfl) hmark
  next => rfl

/-- The lines of a source are those of its body. -/
theorem exists_lines_eq (source : Source) :
    ∃ previous place, source.lines = linesFrom source.failure [] [] []
      (readNotices source.failure previous place source.body) place source.body := by
  by_cases hmark : source.symbols.head? = some (.char '\ufeff')
  · obtain ⟨rest, hrest⟩ := List.head?_eq_some_iff.mp hmark
    refine ⟨.start, Place.start.after (.char '\ufeff'), ?_⟩
    rw [body_of_mark hrest]
    simp only [lines, hrest]
  · refine ⟨.start, .start, ?_⟩
    rw [body_of_head hmark]
    unfold lines
    split
    next rest hrest => exact absurd (by rw [hrest]; rfl) hmark
    next => rfl

/-- A source whose lines come without notices has been read to its end, and its words are those of
the lines. -/
theorem readable_of_lines {source : Source} (hlines : ∀ line ∈ source.lines, line.notices = []) :
    Readable source.failure source.body ∧ ∃ words, Lexes source.failure source.body words := by
  obtain ⟨previous, place, hfrom⟩ := source.exists_lines_eq
  rw [hfrom] at hlines
  obtain ⟨-, hearly, -, words, hlexes⟩ := exists_lexes_of_linesFrom hlines
  exact ⟨hlexes.readable (readNotices_eq_nil_iff.mp hearly), words, hlexes⟩

/-- The lines of a source say its words. -/
theorem says_of_lexes {source : Source} {words : List (List Word)}
    (hread : readProblems source.failure source.body = [])
    (hlexes : Lexes source.failure source.body words) :
    List.Forall₂ SourceLine.Says source.lines words := by
  obtain ⟨previous, place, hfrom⟩ := source.exists_lines_eq
  obtain ⟨first, others, rfl⟩ := hlexes.exists_cons
  have hempty : Spells ([] : List Token).reverse [] := ⟨rfl, by simp⟩
  obtain ⟨read, hlines, hwording⟩ := hlexes.exists_linesFrom rfl hempty [] place
  rw [hfrom, readNotices_eq_nil_iff.mpr hread, hlines]
  exact hwording

end Source

end Octet
