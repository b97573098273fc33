import Octet.Proofs.Source.Joining

/-! # Spacing

A source can be taken apart at its line breaks: no word, comment or character reaches
across one, so the words of a source are those of its lines. Blanks and comments add no
words to a line, neither blanks before it nor blanks behind it, with or without a comment.
-/

namespace Octet

/-! ### Taking sources apart -/

/-- What does not hold the separator ends before it. -/
theorem exists_of_append_eq_append {α : Type} {front more tail after : List α} {separator : α}
    (hsame : front ++ separator :: more = tail ++ after) (hmem : separator ∉ tail) :
    ∃ left, front = tail ++ left ∧ after = left ++ separator :: more := by
  rcases List.append_eq_append_iff.mp hsame with ⟨extra, rfl, hextra⟩ | hinside
  · cases extra with
    | nil => exact ⟨[], by simp, hextra.symm⟩
    | cons first extra =>
        obtain ⟨rfl, -⟩ := List.cons.inj hextra
        exact absurd (by simp) hmem
  · exact hinside

section Breaking

variable {symbols after more : List Symbol} {skips : Symbol → Bool}

theorem readProblems_of_append {others : List Symbol}
    (hread : readProblems none (symbols ++ others) = []) : readProblems none symbols = [] := by
  cases symbols with
  | nil => rfl
  | cons symbol rest =>
      rw [List.cons_append, readProblems_cons_eq_nil_iff] at hread
      exact readProblems_cons_eq_nil_iff.mpr hread

/-- What is passed over before a line break does not depend on what is behind it. -/
theorem Passes.of_append_break (hpasses : Passes none skips (symbols ++ .char '\n' :: more) after)
    (hbreak : skips (.char '\n') = false) :
    ∃ left, after = left ++ .char '\n' :: more ∧ Passes none skips symbols left := by
  generalize hall : symbols ++ .char '\n' :: more = all at hpasses
  induction hpasses generalizing symbols with
  | stop hstop =>
      subst hall
      refine ⟨symbols, rfl, .stop fun symbol hsymbol => hstop symbol ?_⟩
      cases symbols with
      | nil => cases hsymbol
      | cons first rest => exact hsymbol
  | pass hskips hread _ ih =>
      cases symbols with
      | nil =>
          obtain ⟨rfl, -⟩ := List.cons.inj hall
          cases hbreak.symm.trans hskips
      | cons first rest =>
          obtain ⟨rfl, rfl⟩ := List.cons.inj hall
          obtain ⟨left, hafter, hleft⟩ := ih rfl
          exact ⟨left, hafter, .pass hskips (readProblems_of_append hread) hleft⟩

/-- No lexeme reaches across a line break. -/
theorem lexeme_of_append_break {first : Symbol} {rest text : List Symbol} {kind : TokenKind}
    (hlexeme : lexeme none first (rest ++ .char '\n' :: more) = ⟨kind, text, [], after⟩) :
    ∃ left, after = left ++ .char '\n' :: more ∧
      lexeme none first rest = ⟨kind, text, [], left⟩ := by
  obtain ⟨hread, -⟩ := readable_of_lexeme hlexeme
  obtain ⟨tail, hsplit, hbreak, hlocal⟩ := lexeme_local hlexeme
  obtain ⟨left, rfl, rfl⟩ := exists_of_append_eq_append hsplit hbreak
  refine ⟨left, rfl, hlocal left (readProblems_of_append hread) fun symbol hsymbol => .inl ?_⟩
  cases left with
  | nil => cases hsymbol
  | cons first left => exact hsymbol

theorem lexeme_break (more : List Symbol) :
    lexeme none (.char '\n') more =
      ⟨.single '\n', [.char '\n'], readProblems none more, more⟩ := rfl

/-- The words of two sources with a line break between them are words of the first one and then of
the second one. -/
theorem Lexes.of_append {words : List (List Word)}
    (hlexes : Lexes none (symbols ++ .char '\n' :: more) words) :
    ∃ lines others, words = lines ++ others ∧ Lexes none symbols lines ∧
      Lexes none more others := by
  generalize hall : symbols ++ .char '\n' :: more = all at hlexes
  have hblank {symbols all rest : List Symbol} {first : Symbol}
      (hall : symbols ++ .char '\n' :: more = all)
      (hpasses : Passes none isBlank all (first :: rest)) :
      (first = .char '\n' ∧ rest = more ∧ Passes none isBlank symbols []) ∨
        ∃ left, rest = left ++ .char '\n' :: more ∧
          Passes none isBlank symbols (first :: left) := by
    subst hall
    obtain ⟨left, hleft, hpassed⟩ := hpasses.of_append_break rfl
    cases left with
    | nil =>
        obtain ⟨rfl, rfl⟩ := List.cons.inj hleft
        exact .inl ⟨rfl, rfl, hpassed⟩
    | cons symbol left =>
        obtain ⟨rfl, rfl⟩ := List.cons.inj hleft
        exact .inr ⟨left, rfl, hpassed⟩
  induction hlexes generalizing symbols with
  | finish hpasses =>
      subst hall
      obtain ⟨left, hleft, -⟩ := hpasses.of_append_break rfl
      simp at hleft
  | word hpasses hlexeme hkind _ ih =>
      rcases hblank hall hpasses with ⟨rfl, rfl, -⟩ | ⟨left, rfl, hpassed⟩
      · rw [lexeme_break] at hlexeme
        exact absurd (Lexeme.mk.inj hlexeme).1.symm hkind.1
      · obtain ⟨behind, rfl, hbefore⟩ := lexeme_of_append_break hlexeme
        obtain ⟨lines, others, hlines, hsymbols, hmore⟩ := ih rfl
        obtain ⟨first, later, rfl⟩ := hsymbols.exists_cons
        obtain ⟨rfl, rfl⟩ := List.cons.inj hlines
        exact ⟨_, others, rfl, .word hpassed hbefore hkind hsymbols, hmore⟩
  | newline hpasses hlexeme hafter ih =>
      rcases hblank hall hpasses with ⟨rfl, rfl, hpassed⟩ | ⟨left, rfl, hpassed⟩
      · rw [lexeme_break] at hlexeme
        obtain ⟨-, -, -, rfl⟩ := Lexeme.mk.inj hlexeme
        exact ⟨[[]], _, rfl, .finish hpassed, hafter⟩
      · obtain ⟨behind, rfl, hbefore⟩ := lexeme_of_append_break hlexeme
        obtain ⟨lines, others, rfl, hsymbols, hmore⟩ := ih rfl
        exact ⟨[] :: lines, others, rfl, .newline hpassed hbefore hsymbols, hmore⟩
  | comment hpasses hlexeme hkind hskipped _ ih =>
      rcases hblank hall hpasses with ⟨rfl, rfl, -⟩ | ⟨left, rfl, hpassed⟩
      · rw [lexeme_break] at hlexeme
        obtain ⟨rfl, -⟩ := Lexeme.mk.inj hlexeme
        simp at hkind
      · obtain ⟨behind, rfl, hbefore⟩ := lexeme_of_append_break hlexeme
        obtain ⟨ending, rfl, hinside⟩ := hskipped.of_append_break rfl
        obtain ⟨lines, others, rfl, hsymbols, hmore⟩ := ih rfl
        exact ⟨lines, others, rfl, .comment hpassed hbefore hkind hinside hsymbols, hmore⟩

end Breaking

/-! ### Blanks and comments -/

section Ignored

variable {symbols others : List Symbol} {lines : List (List Word)} {skips : Symbol → Bool}

theorem readProblems_of_fine (hfine : ∀ symbol ∈ symbols, symbol.Fine) :
    readProblems none symbols = [] := by
  cases symbols with
  | nil => rfl
  | cons symbol rest => exact readProblems_cons_eq_nil_iff.mpr (hfine symbol List.mem_cons_self)

/-- Symbols that are skipped can stand before what is passed over. -/
theorem passes_append {after : List Symbol}
    (hsymbols : ∀ symbol ∈ symbols, skips symbol = true ∧ symbol.Fine)
    (hothers : Passes none skips others after) (hread : readProblems none others = []) :
    Passes none skips (symbols ++ others) after := by
  induction symbols with
  | nil => exact hothers
  | cons symbol rest ih =>
      obtain ⟨hfirst, hrest⟩ := List.forall_mem_cons.mp hsymbols
      have hfine : ∀ symbol ∈ rest, symbol.Fine := fun symbol hmem => (hrest symbol hmem).2
      exact .pass hfirst.1 (readProblems_append (readProblems_of_fine hfine) hread) (ih hrest)

theorem Passes.skips_of_mem (hpasses : Passes none skips symbols []) :
    ∀ symbol ∈ symbols, skips symbol = true := by
  generalize hnil : ([] : List Symbol) = after at hpasses
  induction hpasses with
  | stop _ => simp [← hnil]
  | pass hskips _ _ ih => exact List.forall_mem_cons.mpr ⟨hskips, ih hnil⟩

/-- Symbols that are passed between the words of a line: blanks, and perhaps a comment behind
them. -/
inductive Ignored : List Symbol → Prop
  | blanks {blanks : List Symbol} (hblanks : ∀ symbol ∈ blanks, isBlank symbol = true) :
      Ignored blanks
  | comment {blanks text : List Symbol} {mark : Char}
      (hblanks : ∀ symbol ∈ blanks, isBlank symbol = true) (hmark : mark = ';' ∨ mark = '#')
      (htext : ∀ symbol ∈ text, insideComment symbol = true ∧ symbol.Fine) :
      Ignored (blanks ++ .char mark :: text)

theorem insideComment_of_isBlank {symbol : Symbol} (hblank : isBlank symbol = true) :
    insideComment symbol = true := by
  unfold insideComment
  rw [bne_iff_ne]
  rintro rfl
  exact absurd hblank (by decide)

/-- All of a margin can stand inside of a comment. -/
theorem Ignored.inside (hignored : Ignored symbols) :
    ∀ symbol ∈ symbols, insideComment symbol = true ∧ symbol.Fine := by
  have hblank {blanks : List Symbol} (hblanks : ∀ symbol ∈ blanks, isBlank symbol = true) :
      ∀ symbol ∈ blanks, insideComment symbol = true ∧ symbol.Fine := fun symbol hmem =>
    ⟨insideComment_of_isBlank (hblanks symbol hmem), fine_of_isBlank (hblanks symbol hmem)⟩
  cases hignored with
  | blanks hblanks => exact hblank hblanks
  | comment hblanks hmark htext =>
      refine List.forall_mem_append.mpr ⟨hblank hblanks, List.forall_mem_cons.mpr ⟨?_, htext⟩⟩
      rcases hmark with rfl | rfl
      · exact ⟨rfl, ';', by decide, rfl⟩
      · exact ⟨rfl, '#', by decide, rfl⟩

theorem Ignored.fine (hignored : Ignored symbols) : ∀ symbol ∈ symbols, symbol.Fine :=
  fun symbol hmem => (hignored.inside symbol hmem).2

theorem Ignored.readProblems (hignored : Ignored symbols) : readProblems none symbols = [] :=
  readProblems_of_fine hignored.fine

theorem endsLexeme_of_isBlank {symbol : Symbol} (hblank : isBlank symbol = true) :
    symbol.EndsLexeme := by
  cases symbol with
  | char c =>
      simp only [isBlank, Bool.or_eq_true, beq_iff_eq] at hblank
      simp only [Symbol.EndsLexeme, List.mem_cons, Symbol.char.injEq]
      tauto
  | stray byte cut => cases hblank

theorem Ignored.endsLexeme (hignored : Ignored symbols) :
    ∀ symbol ∈ symbols.head?, symbol.EndsLexeme := by
  intro symbol hsymbol
  cases hignored with
  | blanks hblanks => exact endsLexeme_of_isBlank (hblanks symbol (List.mem_of_mem_head? hsymbol))
  | @comment blanks text mark hblanks hmark htext =>
      cases blanks with
      | nil =>
          obtain rfl : .char mark = symbol := by simpa using hsymbol
          rcases hmark with rfl | rfl <;> simp [Symbol.EndsLexeme]
      | cons blank blanks =>
          obtain rfl : blank = symbol := by simpa using hsymbol
          exact endsLexeme_of_isBlank (hblanks blank List.mem_cons_self)

/-- Blanks in front of a line do not change its words. -/
theorem Lexes.blanks_append (hlexes : Lexes none symbols lines)
    (hread : Octet.readProblems none symbols = []) {blanks : List Symbol}
    (hblanks : ∀ symbol ∈ blanks, isBlank symbol = true) :
    Lexes none (blanks ++ symbols) lines := by
  have hpasses {after : List Symbol} (hbefore : Passes none isBlank symbols after) :
      Passes none isBlank (blanks ++ symbols) after :=
    passes_append (fun symbol hmem => ⟨hblanks symbol hmem, fine_of_isBlank (hblanks symbol hmem)⟩)
      hbefore hread
  cases hlexes with
  | finish hblank => exact .finish (hpasses hblank)
  | word hblank hlexeme hkind hafter => exact .word (hpasses hblank) hlexeme hkind hafter
  | newline hblank hlexeme hafter => exact .newline (hpasses hblank) hlexeme hafter
  | comment hblank hlexeme hkind hskipped hbehind =>
      exact .comment (hpasses hblank) hlexeme hkind hskipped hbehind

theorem lexes_nil : Lexes none [] [[]] := .finish (.stop (by simp))

/-- There are no words in what is ignored. -/
theorem Ignored.lexes (hignored : Ignored symbols) : Lexes none symbols [[]] := by
  cases hignored with
  | blanks hblanks =>
      rw [← List.append_nil symbols]
      exact lexes_nil.blanks_append rfl hblanks
  | @comment blanks text mark hblanks hmark htext =>
      have hread : Octet.readProblems none text = [] :=
        readProblems_of_fine fun symbol hmem => (htext symbol hmem).2
      have hskipped : Passes none insideComment text [] := by
        rw [← List.append_nil text]
        exact passes_append htext (.stop (by simp)) rfl
      have hlexeme : lexeme none (.char mark) text = ⟨.single mark, [.char mark], [], text⟩ := by
        rw [← hread]
        rcases hmark with rfl | rfl <;> rfl
      have hstop : Passes none isBlank (.char mark :: text) (.char mark :: text) := by
        refine .stop ?_
        rcases hmark with rfl | rfl <;> simp [isBlank]
      refine (Lexes.comment hstop hlexeme ?_ hskipped lexes_nil).blanks_append ?_ hblanks
      · rcases hmark with rfl | rfl <;> simp
      · rcases hmark with rfl | rfl <;> rfl

/-- What is ignored adds no words to the line that it is put behind. -/
theorem Lexes.append_ignored (hlexes : Lexes none symbols lines) (hignored : Ignored others) :
    Lexes none (symbols ++ others) lines := by
  have hread := hignored.readProblems
  have hblank {symbols rest : List Symbol} {first : Symbol}
      (hpasses : Passes none isBlank symbols (first :: rest)) :
      Passes none isBlank (symbols ++ others) (first :: (rest ++ others)) :=
    hpasses.append hread (.stop hpasses.stops)
  induction hlexes with
  | finish hpasses => exact hignored.lexes.blanks_append hread hpasses.skips_of_mem
  | word hpasses hlexeme hkind _ ih =>
      exact .word (hblank hpasses) (lexeme_append hlexeme hread hignored.endsLexeme) hkind ih
  | newline hpasses hlexeme _ ih =>
      exact .newline (hblank hpasses) (lexeme_append hlexeme hread hignored.endsLexeme) ih
  | @comment _ _ after behind _ _ _ _ hpasses hlexeme hkind hskipped hbehind ih =>
      have hnext := lexeme_append hlexeme hread hignored.endsLexeme
      cases behind with
      | nil =>
          have hothers : Passes none insideComment others [] :=
            List.append_nil others ▸ passes_append hignored.inside (.stop (by simp)) rfl
          have hinside : Passes none insideComment (after ++ others) [] :=
            hskipped.append hread hothers
          exact .comment (hblank hpasses) hnext hkind hinside hbehind
      | cons first rest =>
          exact .comment (hblank hpasses) hnext hkind
            (hskipped.append hread (.stop hskipped.stops)) ih

end Ignored

/-! ### Lines of bytes -/

theorem fine_of_append_break {bytes more : List UInt8}
    (hfine : ∀ symbol ∈ decodeUtf8 (bytes ++ 10 :: more), symbol.Fine) :
    ∀ symbol ∈ decodeUtf8 bytes, symbol.Fine := by
  match bytes with
  | [] => exact fun symbol hmem => absurd hmem List.not_mem_nil
  | lead :: rest =>
      rcases firstSymbol_cases lead (rest ++ 10 :: more) with
        ⟨cut, hstray⟩ | ⟨c, tail, others, hsplit, hbreak, hfirst⟩
      · have hdecoded : decodeUtf8 (lead :: (rest ++ 10 :: more)) =
            .stray lead cut :: decodeUtf8 (rest ++ 10 :: more) :=
          @decodeUtf8_cons lead [] (rest ++ 10 :: more) _ hstray
        rw [List.cons_append, hdecoded, List.forall_mem_cons] at hfine
        obtain ⟨⟨c, -, hsame⟩, -⟩ := hfine
        cases hsame
      · obtain ⟨left, rfl, rfl⟩ := exists_of_append_eq_append hsplit hbreak
        rw [List.cons_append, List.append_assoc, decodeUtf8_cons (hfirst _),
          List.forall_mem_cons] at hfine
        rw [decodeUtf8_cons (hfirst left)]
        exact List.forall_mem_cons.mpr ⟨hfine.1, fine_of_append_break hfine.2⟩
termination_by bytes.length

/-- The lines of a source that can be read are read one by one. -/
theorem decodeUtf8_intercalate {lines : List (List UInt8)}
    (hfine : ∀ line ∈ lines, ∀ symbol ∈ decodeUtf8 line, symbol.Fine) :
    decodeUtf8 ([10].intercalate lines) = [.char '\n'].intercalate (lines.map decodeUtf8) := by
  induction lines with
  | nil => rfl
  | cons line lines ih =>
      obtain ⟨hline, hlines⟩ := List.forall_mem_cons.mp hfine
      cases lines with
      | nil => simp
      | cons next lines =>
          rw [List.intercalate_cons_cons, List.append_assoc, List.singleton_append,
            decodeUtf8_append_break hline, ih hlines]
          simp [List.intercalate_cons_cons]

/-- The symbols of a text are those of its lines. -/
theorem fine_of_intercalate {lines : List (List UInt8)}
    (hfine : ∀ symbol ∈ decodeUtf8 ([10].intercalate lines), symbol.Fine) :
    ∀ line ∈ lines, ∀ symbol ∈ decodeUtf8 line, symbol.Fine := by
  induction lines with
  | nil => simp
  | cons line lines ih =>
      cases lines with
      | nil => simpa using hfine
      | cons next lines =>
          rw [List.intercalate_cons_cons, List.append_assoc, List.singleton_append] at hfine
          have hline := fine_of_append_break hfine
          rw [decodeUtf8_append_break hline] at hfine
          obtain ⟨-, hrest⟩ := List.forall_mem_append.mp hfine
          exact List.forall_mem_cons.mpr ⟨hline, ih (List.forall_mem_cons.mp hrest).2⟩

/-- The words of a source are those of its lines. -/
theorem exists_lexes_of_intercalate {chunks : List (List Symbol)} (hsome : chunks ≠ [])
    {words : List (List Word)} (hlexes : Lexes none ([.char '\n'].intercalate chunks) words) :
    ∃ parts, List.Forall₂ (Lexes none) chunks parts ∧ words = parts.flatten := by
  induction chunks generalizing words with
  | nil => exact absurd rfl hsome
  | cons chunk chunks ih =>
      cases chunks with
      | nil =>
          rw [List.intercalate_singleton] at hlexes
          exact ⟨[words], .cons hlexes .nil, by simp⟩
      | cons next chunks =>
          rw [List.intercalate_cons_cons, List.append_assoc, List.singleton_append] at hlexes
          obtain ⟨lines, others, rfl, hline, hlater⟩ := hlexes.of_append
          obtain ⟨parts, hparts, rfl⟩ := ih (List.cons_ne_nil next chunks) hlater
          exact ⟨lines :: parts, .cons hline hparts, rfl⟩

/-- Lines that are read one by one are read in the same way as one text. -/
theorem lexes_intercalate {chunks : List (List Symbol)} (hsome : chunks ≠ [])
    (hfine : ∀ chunk ∈ chunks, ∀ symbol ∈ chunk, symbol.Fine) {parts : List (List (List Word))}
    (hparts : List.Forall₂ (Lexes none) chunks parts) :
    Lexes none ([.char '\n'].intercalate chunks) parts.flatten ∧
      readProblems none ([.char '\n'].intercalate chunks) = [] := by
  induction hparts with
  | nil => exact absurd rfl hsome
  | @cons chunk part chunks parts hline hrest ih =>
      obtain ⟨hchunk, hlater⟩ := List.forall_mem_cons.mp hfine
      have hread := readProblems_of_fine hchunk
      cases hrest with
      | nil => simpa using ⟨hline, hread⟩
      | cons hnext hrest =>
          obtain ⟨hlexes, hbehind⟩ := ih (List.cons_ne_nil _ _) hlater
          rw [List.intercalate_cons_cons, List.append_assoc, List.singleton_append]
          exact ⟨hline.append hlexes hbehind, readProblems_append hread rfl⟩

end Octet
