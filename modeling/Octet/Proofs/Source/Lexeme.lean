import Octet.Proofs.Source.Reading

/-! # Where lexemes end

A lexeme of which nothing is noticed depends on its own symbols and on the one behind
it, which it has to look at to know that it ends. So it stays the same when other
symbols come behind it, as long as they start with the same one or with one that
belongs to no lexeme but its own: a blank, a line break or the mark of a comment. No
line break is part of such a lexeme, unless it is the lexeme.
-/

namespace Octet

variable {failure : Option String}

theorem readProblems_congr {symbols others : List Symbol} (hhead : others.head? = symbols.head?) :
    readProblems failure others = readProblems failure symbols := by
  cases symbols with
  | nil =>
      obtain rfl := List.head?_eq_none_iff.mp hhead
      rfl
  | cons symbol rest =>
      obtain ⟨rest, rfl⟩ := List.head?_eq_some_iff.mp hhead
      cases symbol <;> rfl

theorem head?_append_congr {symbols others : List Symbol} (hhead : others.head? = symbols.head?)
    (front : List Symbol) : (front ++ others).head? = (front ++ symbols).head? := by
  rw [List.head?_append, List.head?_append, hhead]

/-! ### Character literals -/

namespace LiteralReading

/-- What `read` does without a notice depends on the symbols that it passes, none of which is a line
break, and on the one that it stops at. -/
def Confined (read : LiteralReading → LiteralReading) (reading : LiteralReading) : Prop :=
  (read reading).problems = [] → ∃ passed, reading.rest = passed ++ (read reading).rest ∧
    .char '\n' ∉ passed ∧
    ∀ rest, rest.head? = (read reading).rest.head? →
      read { reading with rest := passed ++ rest } = { read reading with rest }

section Confined

variable {reading : LiteralReading} {read other : LiteralReading → LiteralReading}

theorem confined_id (reading : LiteralReading) : Confined id reading := fun _ =>
  ⟨[], rfl, List.not_mem_nil, fun _ _ => rfl⟩

theorem confined_report (reading : LiteralReading) (problem : Problem) :
    Confined (·.report problem) reading := fun hproblems =>
  absurd hproblems (by simp [report])

/-- Moving on reads one symbol, and not a line break. -/
theorem confined_advance (hbreak : reading.rest.head? ≠ some (.char '\n')) :
    Confined (advance failure) reading := by
  obtain ⟨taken, problems, rest⟩ := reading
  intro hproblems
  cases rest with
  | nil =>
      refine ⟨[], rfl, List.not_mem_nil, fun others hothers => ?_⟩
      obtain rfl := List.head?_eq_none_iff.mp hothers
      rfl
  | cons symbol rest =>
      refine ⟨[symbol], rfl, ?_, fun others hothers => ?_⟩
      · simpa [eq_comm] using hbreak
      · change others.head? = rest.head? at hothers
        simp only [advance, List.singleton_append, readProblems_congr hothers]

/-- Only the branch that is taken matters, and the current symbol tells which one that is. -/
theorem Confined.congr (hconfined : Confined other reading)
    (hsame : ∀ later : LiteralReading, later.rest.head? = reading.rest.head? →
      read later = other later) : Confined read reading := by
  have hhere := hsame reading rfl
  rw [Confined, hhere]
  intro hproblems
  obtain ⟨passed, hrest, hbreak, hlocal⟩ := hconfined hproblems
  refine ⟨passed, hrest, hbreak, fun others hothers => ?_⟩
  rw [← hlocal others hothers]
  refine hsame _ ?_
  rw [hrest]
  exact head?_append_congr hothers passed

/-- Two confined readings, one after the other, are confined. -/
theorem Confined.trans (hread : Confined read reading) (hother : Confined other (read reading))
    (hleads : Leads failure (read reading) (other (read reading))) :
    Confined (fun later => other (read later)) reading := by
  intro hproblems
  obtain ⟨passed, hrest, hbreak, hlocal⟩ := hread (hleads hproblems).1
  obtain ⟨more, hmore, hlater, hnext⟩ := hother hproblems
  refine ⟨passed ++ more, ?_, ?_, fun others hothers => ?_⟩
  · rw [hrest, hmore, List.append_assoc]
  · exact fun hmem => (List.mem_append.mp hmem).elim hbreak hlater
  · have hhead : (more ++ others).head? = (read reading).rest.head? := by
      rw [hmore]
      exact head?_append_congr hothers more
    dsimp only
    rw [List.append_assoc, hlocal _ hhead, hnext others hothers]

end Confined

theorem confined_escapeDigits {isDigit : Char → Bool} (hbreak : isDigit '\n' = false) (count : Nat)
    (reading : LiteralReading) : Confined (·.escapeDigits failure isDigit count) reading := by
  induction count generalizing reading with
  | zero => exact confined_id reading
  | succ count ih =>
      have hrefused (hother : ∀ c, reading.rest.head? = some (.char c) → isDigit c = false) :
          Confined (·.escapeDigits failure isDigit (count + 1)) reading := by
        refine (confined_report reading .badEscape).congr fun later hlater => ?_
        unfold escapeDigits
        split
        next c rest hrest =>
          rw [hrest] at hlater
          rw [if_neg (by simp [hother c hlater.symm])]
        next => rfl
      by_cases hdigit : ∃ c, reading.rest.head? = some (.char c) ∧ isDigit c = true
      · obtain ⟨c, hhead, hdigit⟩ := hdigit
        have hother : reading.rest.head? ≠ some (.char '\n') := by
          rintro hnewline
          rw [hhead] at hnewline
          cases hnewline
          cases hdigit.symm.trans hbreak
        refine ((confined_advance hother).trans (ih (reading.advance failure))
          (leads_escapeDigits isDigit count _)).congr fun later hlater => ?_
        obtain ⟨rest, hrest⟩ := List.head?_eq_some_iff.mp (hlater.trans hhead)
        simp only [escapeDigits, hrest, hdigit, ↓reduceIte]
      · refine hrefused fun c hhead => ?_
        rw [Bool.eq_false_iff]
        exact fun htrue => hdigit ⟨c, hhead, htrue⟩

theorem confined_escape (reading : LiteralReading) : Confined (escape failure) reading := by
  by_cases hchar : ∃ c, reading.rest.head? = some (.char c)
  · obtain ⟨c, hhead⟩ := hchar
    have hoctal : isOctalDigit '\n' = false := rfl
    have hhex : isHexDigit '\n' = false := rfl
    have hadvanced (hbreak : c ≠ '\n') (count : Nat) :
        Confined (fun later => (later.advance failure).escapeDigits failure isHexDigit count)
          reading :=
      (confined_advance (by simpa [hhead] using hbreak)).trans
        (confined_escapeDigits hhex count _) (leads_escapeDigits isHexDigit count _)
    -- the branch that is taken for `c` is taken for whatever starts with `c`
    have hbranch {other : LiteralReading → LiteralReading} (hconfined : Confined other reading)
        (hsame : ∀ (later : LiteralReading) rest, later.rest = .char c :: rest →
          later.escape failure = other later) : Confined (escape failure) reading := by
      refine hconfined.congr fun later hlater => ?_
      obtain ⟨rest, hrest⟩ := List.head?_eq_some_iff.mp (hlater.trans hhead)
      exact hsame later rest hrest
    by_cases hletter : c ∈ ['a', 'b', 'f', 'n', 'r', 't', 'v', '\\', '\'']
    · have hbreak : reading.rest.head? ≠ some (.char '\n') := by
        intro hnewline
        obtain rfl : c = '\n' := by simpa [hhead] using hnewline
        exact absurd hletter (by decide)
      have hpassed : Confined (advance failure) reading := confined_advance hbreak
      refine hbranch hpassed fun later rest hrest => ?_
      simp only [escape, hrest, if_pos hletter]
    by_cases hdigit : isOctalDigit c = true
    · have hdigits : Confined (·.escapeDigits failure isOctalDigit 3) reading :=
        confined_escapeDigits hoctal 3 reading
      refine hbranch hdigits fun later rest hrest => ?_
      simp only [escape, hrest, if_neg hletter, if_pos hdigit]
    by_cases hbyte : c = 'x'
    · refine hbranch (hadvanced (by simp [hbyte]) 2) fun later rest hrest => ?_
      simp only [escape, hrest, if_neg hletter, if_neg hdigit, if_pos hbyte]
    by_cases hshort : c = 'u'
    · refine hbranch (hadvanced (by simp [hshort]) 4) fun later rest hrest => ?_
      simp only [escape, hrest, if_neg hletter, if_neg hdigit, if_neg hbyte, if_pos hshort]
    by_cases hlong : c = 'U'
    · refine hbranch (hadvanced (by simp [hlong]) 8) fun later rest hrest => ?_
      simp only [escape, hrest, if_neg hletter, if_neg hdigit, if_neg hbyte, if_neg hshort,
        if_pos hlong]
    · refine hbranch (confined_report reading .badEscape) fun later rest hrest => ?_
      simp only [escape, hrest, if_neg hletter, if_neg hdigit, if_neg hbyte, if_neg hshort,
        if_neg hlong]
  · refine (confined_report reading .badEscape).congr fun later hlater => ?_
    unfold escape
    split
    next c rest hrest =>
      rw [hrest] at hlater
      exact absurd ⟨c, hlater.symm⟩ hchar
    next => rfl

variable {reading : LiteralReading}

/-- What the next symbol makes of a literal: it closes it, breaks it off, starts an escape or is an
element. -/
theorem elements_of_cons {symbol : Symbol} {rest : List Symbol}
    (hrest : reading.rest = symbol :: rest) (failure : Option String) (count : Nat) :
    reading.elements failure count =
      if symbol = .char '\'' then (count, reading)
      else if symbol = .char '\n' then (count, reading.report .unterminatedLiteral)
      else if symbol = .char '\\' then
        ((reading.advance failure).escape failure).elements failure (count + 1)
      else (reading.advance failure).elements failure (count + 1) := by
  rw [elements]
  split
  next hnil => cases hnil.symm.trans hrest
  next first others hcons =>
    obtain ⟨rfl, rfl⟩ := List.cons.inj (hcons.symm.trans hrest)
    rfl

/-- The elements from here on end before a quote on the same line, and do not depend on what is
behind the quote. -/
def Closes (failure : Option String) (count : Nat) (reading : LiteralReading) : Prop :=
  ∃ passed rest, reading.rest = passed ++ .char '\'' :: rest ∧ .char '\n' ∉ passed ∧
    ∀ others, elements failure count { reading with rest := passed ++ .char '\'' :: others } =
      ((reading.elements failure count).1,
        { (reading.elements failure count).2 with rest := .char '\'' :: others })

/-- A literal that closes after an element closes with it. -/
theorem Confined.closes {read : LiteralReading → LiteralReading} {count : Nat}
    (hread : Confined read reading) (hproblems : (read reading).problems = [])
    (hcloses : Closes failure (count + 1) (read reading))
    (hstep : ∀ later : LiteralReading, later.rest.head? = reading.rest.head? →
      later.elements failure count = (read later).elements failure (count + 1)) :
    Closes failure count reading := by
  obtain ⟨passed, hrest, hbreak, hlocal⟩ := hread hproblems
  obtain ⟨more, left, hmore, hlater, hnext⟩ := hcloses
  refine ⟨passed ++ more, left, ?_, ?_, fun others => ?_⟩
  · rw [hrest, hmore, List.append_assoc]
  · exact fun hmem => (List.mem_append.mp hmem).elim hbreak hlater
  · have hhead : (more ++ .char '\'' :: others).head? = (read reading).rest.head? := by
      rw [hmore]
      refine head?_append_congr ?_ more
      rfl
    rw [hstep reading rfl, ← hnext others, List.append_assoc, hstep, hlocal _ hhead]
    rw [hrest]
    exact head?_append_congr hhead passed

/-- A literal without problems is closed, and by what stands in it alone. -/
theorem closes_of_elements {count : Nat}
    (hproblems : (reading.elements failure count).2.problems = []) :
    Closes failure count reading := by
  fun_induction elements failure count reading with
  | case1 => exact absurd hproblems (by simp [report])
  | case2 count reading rest hrest =>
      have hhere : reading.elements failure count = (count, reading) :=
        (elements_of_cons hrest failure count).trans (if_pos rfl)
      refine ⟨[], rest, hrest, List.not_mem_nil, fun others => ?_⟩
      rw [hhere]
      exact (elements_of_cons rfl failure count).trans (if_pos rfl)
  | case3 => exact absurd hproblems (by simp [report])
  | case4 count reading rest hrest hquote hbreak ih =>
      have hescaped : Confined (fun later => (later.advance failure).escape failure) reading :=
        (confined_advance (by simp [hrest])).trans (confined_escape _) (leads_escape _)
      refine hescaped.closes (leads_elements (count + 1) _ hproblems).1 (ih hproblems) ?_
      intro later hlater
      obtain ⟨left, hleft⟩ : ∃ left, later.rest = .char '\\' :: left :=
        List.head?_eq_some_iff.mp (hlater.trans (by rw [hrest]; rfl))
      rw [elements_of_cons hleft, if_neg hquote, if_neg hbreak, if_pos rfl]
  | case5 count reading symbol rest hrest hquote hbreak hescape ih =>
      have hadvanced : Confined (advance failure) reading :=
        confined_advance (by simpa [hrest] using hbreak)
      refine hadvanced.closes (leads_elements (count + 1) _ hproblems).1 (ih hproblems) ?_
      intro later hlater
      obtain ⟨left, hleft⟩ : ∃ left, later.rest = symbol :: left :=
        List.head?_eq_some_iff.mp (hlater.trans (by rw [hrest]; rfl))
      rw [elements_of_cons hleft, if_neg hquote, if_neg hbreak, if_neg hescape]

/-! Each symbol is either taken or left. -/

theorem taken_advance (failure : Option String) (reading : LiteralReading) :
    (reading.advance failure).taken + (reading.advance failure).rest.length =
      reading.taken + reading.rest.length := by
  unfold advance
  split
  next hrest => simp [hrest]
  next symbol rest hrest =>
    rw [hrest, List.length_cons]
    exact Nat.add_right_comm _ _ _

theorem taken_escapeDigits (failure : Option String) (isDigit : Char → Bool) (count : Nat)
    (reading : LiteralReading) :
    (reading.escapeDigits failure isDigit count).taken +
      (reading.escapeDigits failure isDigit count).rest.length =
        reading.taken + reading.rest.length := by
  induction count generalizing reading with
  | zero => rfl
  | succ count ih =>
      unfold escapeDigits
      split
      · split
        · rw [ih, taken_advance]
        · rfl
      · rfl

theorem taken_escape (failure : Option String) (reading : LiteralReading) :
    (reading.escape failure).taken + (reading.escape failure).rest.length =
      reading.taken + reading.rest.length := by
  unfold escape
  split
  · repeat' split
    · rw [taken_advance]
    · rw [taken_escapeDigits]
    · rw [taken_escapeDigits, taken_advance]
    · rw [taken_escapeDigits, taken_advance]
    · rw [taken_escapeDigits, taken_advance]
    · rfl
  · rfl

/-- What the elements take is taken from the rest. -/
theorem taken_elements (failure : Option String) (count : Nat) (reading : LiteralReading) :
    (reading.elements failure count).2.taken + (reading.elements failure count).2.rest.length =
      reading.taken + reading.rest.length := by
  fun_induction elements failure count reading with
  | case1 => rfl
  | case2 => rfl
  | case3 => rfl
  | case4 _ _ _ _ _ _ ih => rw [ih, taken_escape, taken_advance]
  | case5 _ _ _ _ _ _ _ _ ih => rw [ih, taken_advance]

end LiteralReading

/-- A literal with one element is the text up to its closing quote. -/
theorem characterLexeme_of_elements {failure : Option String} {rest : List Symbol}
    {reading : LiteralReading}
    (helements : (⟨1, readProblems failure rest, rest⟩ : LiteralReading).elements failure 0 =
      (1, reading)) :
    characterLexeme failure rest =
      ⟨.character, (.char '\'' :: rest).take (reading.advance failure).taken,
        (reading.advance failure).problems, (reading.advance failure).rest⟩ := by
  simp only [characterLexeme, helements, ↓reduceIte]

/-- A character literal of which nothing is noticed holds one element. -/
theorem exists_elements_of_characterLexeme {failure : Option String} {rest : List Symbol}
    (hproblems : (characterLexeme failure rest).problems = []) :
    ∃ reading, (⟨1, readProblems failure rest, rest⟩ : LiteralReading).elements failure 0 =
      (1, reading) ∧ reading.problems = [] := by
  obtain ⟨count, reading, helements⟩ : ∃ count reading,
      (⟨1, readProblems failure rest, rest⟩ : LiteralReading).elements failure 0 =
        (count, reading) := ⟨_, _, rfl⟩
  simp only [characterLexeme, helements] at hproblems
  have hbefore := (LiteralReading.leads_advance _ hproblems).1
  split at hbefore
  next hone => exact ⟨reading, hone ▸ helements, hbefore⟩
  next => exact absurd hbefore (by simp [LiteralReading.report])

/-- A character literal of which nothing is noticed ends on its line, in a quote. -/
theorem characterLexeme_local {rest text after : List Symbol} {kind : TokenKind}
    (hlexeme : characterLexeme failure rest = ⟨kind, text, [], after⟩) :
    ∃ tail, rest = tail ++ after ∧ .char '\n' ∉ tail ∧
      ∀ others, readProblems failure others = [] →
        characterLexeme failure (tail ++ others) = ⟨kind, text, [], others⟩ := by
  have hproblems : (characterLexeme failure rest).problems = [] := by rw [hlexeme]
  obtain ⟨reading, helements, hread⟩ := exists_elements_of_characterLexeme hproblems
  have hend : (LiteralReading.elements failure 0 ⟨1, readProblems failure rest, rest⟩).2.problems =
      [] := by rw [helements, hread]
  have hopened : readProblems failure rest = [] := (LiteralReading.leads_elements 0 _ hend).1
  obtain ⟨passed, left, hrest, hbreak, hlocal⟩ := LiteralReading.closes_of_elements hend
  change rest = passed ++ .char '\'' :: left at hrest
  rw [hopened] at helements
  rw [hopened, helements] at hlocal
  have hleft : reading.rest = .char '\'' :: left := by
    have hhere := hlocal left
    rw [← hrest, helements] at hhere
    rw [(Prod.mk.inj hhere).2]
  -- the text is what has been taken: the passed symbols between the two quotes
  have htaken := LiteralReading.taken_elements failure 0 ⟨1, [], rest⟩
  rw [helements, hleft, hrest, List.length_append] at htaken
  obtain ⟨taken, problems, _⟩ := reading
  obtain rfl : taken = passed.length + 1 := by
    dsimp only at htaken
    omega
  obtain rfl : problems = [] := hread
  have hsame (others : List Symbol) : characterLexeme failure (passed ++ .char '\'' :: others) =
      ⟨.character, .char '\'' :: (passed ++ [.char '\'']), readProblems failure others,
        others⟩ := by
    have hfirst : readProblems failure (passed ++ .char '\'' :: others) = [] := by
      rw [← hopened, hrest]
      refine readProblems_congr (head?_append_congr ?_ passed)
      rfl
    rw [characterLexeme_of_elements (by rw [hfirst]; exact hlocal others)]
    simp [LiteralReading.advance, List.take_append, List.take_of_length_le]
  rw [hrest, hsame left] at hlexeme
  obtain ⟨rfl, rfl, -, rfl⟩ := Lexeme.mk.inj hlexeme
  refine ⟨passed ++ [.char '\''], by simp [hrest], by simp [hbreak], fun others hothers => ?_⟩
  rw [List.append_assoc, List.singleton_append, hsame, hothers]

/-! ### Names and integers -/

/-- Symbols that end the lexeme before them and are part of none. -/
def Symbol.EndsLexeme (symbol : Symbol) : Prop :=
  symbol ∈ [.char ' ', .char '\t', .char '\r', .char '\n', .char ';', .char '#']

/-- The lexeme that ends before `after` also ends before `others`. -/
def EndsBefore (after others : List Symbol) : Prop :=
  ∀ symbol ∈ others.head?, symbol ∈ after.head? ∨ symbol.EndsLexeme

/-- A run of symbols ends in the same place if what is behind it does not go on with it. -/
theorem takeWhile_local {inside : Symbol → Bool} {symbols others : List Symbol}
    (hinside : ∀ symbol : Symbol, symbol.EndsLexeme → inside symbol = false)
    (hends : EndsBefore (symbols.dropWhile inside) others) :
    (symbols.takeWhile inside ++ others).takeWhile inside = symbols.takeWhile inside ∧
      (symbols.takeWhile inside ++ others).dropWhile inside = others := by
  have hword : ∀ symbol ∈ symbols.takeWhile inside, inside symbol = true :=
    fun symbol => List.mem_takeWhile_imp
  rw [List.takeWhile_append_of_pos hword, List.dropWhile_append_of_pos hword]
  cases others with
  | nil => simp
  | cons symbol rest =>
      have hstops : inside symbol = false := by
        rcases hends symbol rfl with hsame | hend
        · have hnot := List.head?_dropWhile_not inside symbols
          rwa [Option.mem_def.mp hsame] at hnot
        · exact hinside symbol hend
      simp [hstops]

theorem continuesName_of_endsLexeme :
    ∀ symbol : Symbol, symbol.EndsLexeme → continuesName symbol = false := by
  unfold Symbol.EndsLexeme
  decide

/-- Whether a symbol belongs to the digits of a literal in the given base. -/
def isDigitOf (radix : Radix) : Symbol → Bool
  | .char c => c == '_' || (if radix = .hexadecimal then isHexDigit c else c.isDigit)
  | .stray _ _ => false

theorem isDigitOf_of_endsLexeme (radix : Radix) :
    ∀ symbol : Symbol, symbol.EndsLexeme → isDigitOf radix symbol = false := by
  unfold Symbol.EndsLexeme
  cases radix <;> decide

theorem digitSpan_eq (radix : Radix) (symbols : List Symbol) :
    digitSpan radix symbols = symbols.takeWhile (isDigitOf radix) := by
  refine congrArg (fun inside => symbols.takeWhile inside) (funext fun symbol => ?_)
  cases symbol <;> rfl

/-- Which base an integer is in depends on the symbol behind its first digit. -/
theorem integerRadix_congr (first : Char) {symbols others : List Symbol}
    (hhead : others.head? = symbols.head?) :
    integerRadix first others = integerRadix first symbols := by
  cases symbols with
  | nil =>
      obtain rfl := List.head?_eq_none_iff.mp hhead
      rfl
  | cons symbol rest =>
      obtain ⟨rest, rfl⟩ := List.head?_eq_some_iff.mp hhead
      cases symbol <;> rfl

theorem integerRadix_of_mark {first : Char} {rest : List Symbol}
    (hmark : (integerRadix first rest).2.1 = []) :
    integerRadix first rest = integerRadix first [] := by
  unfold integerRadix at hmark ⊢
  split at hmark
  next hzero =>
    split at hmark
    next =>
      split at hmark
      next => cases hmark
      next => simp only [if_pos hzero]
    next => simp only [if_pos hzero]
  next hzero => simp only [if_neg hzero]

theorem integerRadix_of_endsLexeme (first : Char) {symbol : Symbol} (hend : symbol.EndsLexeme)
    (rest : List Symbol) : integerRadix first (symbol :: rest) = integerRadix first [] := by
  have hletters : ∀ symbol ∈ ([.char ' ', .char '\t', .char '\r', .char '\n', .char ';',
      .char '#'] : List Symbol), Radix.ofLetter? symbol.toChar = none := by decide
  cases symbol with
  | char c =>
      have hletter : Radix.ofLetter? c = none := hletters _ hend
      simp only [integerRadix, hletter]
  | stray byte cut => rfl

/-- The radix of a number depends on its own symbols only. -/
theorem integerRadix_local {first : Char} {tail after others : List Symbol}
    (hmark : (integerRadix first (tail ++ after)).2.1 <+: tail) (hends : EndsBefore after others) :
    integerRadix first (tail ++ others) = integerRadix first (tail ++ after) := by
  cases tail with
  | cons symbol tail =>
      refine integerRadix_congr first ?_
      rfl
  | nil =>
      rw [List.nil_append, List.prefix_nil] at hmark
      rw [List.nil_append, List.nil_append, integerRadix_of_mark hmark]
      cases others with
      | nil => rfl
      | cons symbol others =>
          rcases hends symbol rfl with hsame | hend
          · rw [← integerRadix_of_mark hmark]
            exact integerRadix_congr first hsame.symm
          · exact integerRadix_of_endsLexeme first hend others

/-- There is no line break in the mark of a radix. -/
theorem not_mem_integerRadix (first : Char) (rest : List Symbol) :
    .char '\n' ∉ (integerRadix first rest).2.1 := by
  unfold integerRadix
  split
  next =>
    split
    next letter tail =>
      split
      next radix hletter =>
        rw [List.mem_singleton]
        rintro ⟨⟩
        cases hletter
      next => simp
    next => simp
  next => simp

/-- The base, its letter and the digits make up an integer, and what is wrong with it. -/
theorem exists_integerLexeme (failure : Option String) (first : Char) (radix : Radix)
    (mark digits : List Symbol) (hasDigit : Bool) :
    ∃ problems, ∀ more, integerRadix first (mark ++ more) = (radix, mark, hasDigit) →
      more.takeWhile (isDigitOf radix) = digits →
      integerLexeme failure first (mark ++ more) =
        ⟨.integer, .char first :: mark ++ digits,
          readProblems failure (more.dropWhile (isDigitOf radix)) ++ problems,
          more.dropWhile (isDigitOf radix)⟩ := by
  let chars := digits.map Symbol.toChar
  refine ⟨(if hasDigit || chars.any (· != '_') then [] else [.noDigits radix])
    ++ (((firstBadDigit? radix chars).map (Problem.invalidDigit · radix)).toList
    ++ (if literalSeparatorsFit ((.char first :: mark ++ digits).map Symbol.toChar) then []
      else [.misplacedSeparator])), fun more hradix hdigits => ?_⟩
  have hdropped : more.drop digits.length = more.dropWhile (isDigitOf radix) := by
    have hsplit : digits ++ more.dropWhile (isDigitOf radix) = more :=
      hdigits ▸ List.takeWhile_append_dropWhile
    nth_rewrite 1 [← hsplit]
    exact List.drop_left
  simp only [integerLexeme, hradix, ← List.drop_drop, List.drop_left, digitSpan_eq, hdigits,
    hdropped, List.append_assoc, chars]

/-- An integer of which nothing is noticed ends before what cannot go on with it. -/
theorem integerLexeme_local {first : Char} {rest text after : List Symbol} {kind : TokenKind}
    (hlexeme : integerLexeme failure first rest = ⟨kind, text, [], after⟩) :
    ∃ tail, rest = tail ++ after ∧ .char '\n' ∉ tail ∧
      ∀ others, readProblems failure others = [] → EndsBefore after others →
        integerLexeme failure first (tail ++ others) = ⟨kind, text, [], others⟩ := by
  have hbreak := not_mem_integerRadix first rest
  obtain ⟨⟨more, hmore⟩, -⟩ := integerRadix_mark first rest
  obtain ⟨radix, mark, hasDigit, hparts⟩ : ∃ radix mark hasDigit,
      integerRadix first rest = (radix, mark, hasDigit) := ⟨_, _, _, rfl⟩
  rw [hparts] at hbreak hmore
  dsimp only at hbreak hmore
  rw [← hmore] at hlexeme hparts
  obtain ⟨problems, hform⟩ :=
    exists_integerLexeme failure first radix mark (more.takeWhile (isDigitOf radix)) hasDigit
  rw [hform more hparts rfl] at hlexeme
  obtain ⟨rfl, rfl, hproblems, rfl⟩ := Lexeme.mk.inj hlexeme
  obtain ⟨-, rfl⟩ := List.append_eq_nil_iff.mp hproblems
  have hsplit : more.takeWhile (isDigitOf radix) ++ more.dropWhile (isDigitOf radix) = more :=
    List.takeWhile_append_dropWhile
  refine ⟨mark ++ more.takeWhile (isDigitOf radix), ?_, ?_, fun others hothers hends => ?_⟩
  · rw [List.append_assoc, hsplit, hmore]
  · rw [List.mem_append, not_or]
    refine ⟨hbreak, fun hmem => ?_⟩
    have hdigit := isDigitOf_of_endsLexeme radix (.char '\n') (by simp [Symbol.EndsLexeme])
    exact Bool.false_ne_true (hdigit.symm.trans (List.mem_takeWhile_imp hmem))
  · obtain ⟨htaken, hdropped⟩ := takeWhile_local (isDigitOf_of_endsLexeme radix) hends
    have hradix : integerRadix first (mark ++ (more.takeWhile (isDigitOf radix) ++ others)) =
        (radix, mark, hasDigit) := by
      rw [← hparts]
      nth_rewrite 2 [← hsplit]
      rw [← List.append_assoc, ← List.append_assoc]
      refine integerRadix_local ?_ hends
      rw [List.append_assoc, hsplit, hparts]
      exact List.prefix_append mark _
    rw [List.append_assoc, hform _ hradix htaken, hdropped, hothers, List.append_nil]

/-! ### Any lexeme -/

/-- A lexeme of which nothing is noticed stays as it is when other symbols come behind it, unless
they go on with it. There is no line break in it, unless it is one. -/
theorem lexeme_local {first : Symbol} {rest text after : List Symbol} {kind : TokenKind}
    (hlexeme : lexeme failure first rest = ⟨kind, text, [], after⟩) :
    ∃ tail, rest = tail ++ after ∧ .char '\n' ∉ tail ∧
      ∀ others, readProblems failure others = [] → EndsBefore after others →
        lexeme failure first (tail ++ others) = ⟨kind, text, [], others⟩ := by
  rcases lexeme_cases failure first with hname | ⟨c, hinteger⟩ | hcharacter | hsingle
  · rw [hname] at hlexeme
    obtain ⟨rfl, rfl, -, rfl⟩ := Lexeme.mk.inj hlexeme
    refine ⟨rest.takeWhile continuesName, List.takeWhile_append_dropWhile.symm, ?_, ?_⟩
    · intro hmem
      exact absurd (List.mem_takeWhile_imp hmem) (by decide)
    · intro others hothers hends
      obtain ⟨htaken, hdropped⟩ := takeWhile_local continuesName_of_endsLexeme hends
      rw [hname, htaken, hdropped, hothers]
  · rw [hinteger] at hlexeme ⊢
    exact integerLexeme_local hlexeme
  · rw [hcharacter] at hlexeme ⊢
    obtain ⟨tail, hrest, hbreak, hlocal⟩ := characterLexeme_local hlexeme
    exact ⟨tail, hrest, hbreak, fun others hothers _ => hlocal others hothers⟩
  · rw [hsingle] at hlexeme
    obtain ⟨rfl, rfl, -, rfl⟩ := Lexeme.mk.inj hlexeme
    refine ⟨[], rfl, List.not_mem_nil, fun others hothers _ => ?_⟩
    rw [List.nil_append, hsingle, hothers]

end Octet
