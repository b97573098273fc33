import Octet.Proofs.Source.Lexeme
import Octet.Proofs.Source.Parsing

/-! # Joining sources

Two sources with a line break between them are read as the lines of the first one and
then those of the second one. No token reaches across a line break: names, numbers
and comments end before it, and a character literal that has not ended by then is
noticed. So what is read of the first source is read of it also when something
follows on the next line.
-/

namespace Octet

/-! ### Reading on -/

section Passing

variable {symbols after others left : List Symbol} {skips : Symbol → Bool}

theorem readProblems_append (hread : readProblems none symbols = [])
    (hothers : readProblems none others = []) : readProblems none (symbols ++ others) = [] := by
  cases symbols with
  | nil => exact hothers
  | cons symbol rest =>
      rw [readProblems_cons_eq_nil_iff] at hread
      exact readProblems_cons_eq_nil_iff.mpr hread

/-- What is passed before the end of the symbols is passed also when others follow. -/
theorem Passes.append (hpasses : Passes none skips symbols after)
    (hothers : readProblems none others = []) (hlater : Passes none skips (after ++ others) left) :
    Passes none skips (symbols ++ others) left := by
  induction hpasses with
  | stop _ => exact hlater
  | pass hskips hread _ ih => exact .pass hskips (readProblems_append hread hothers) (ih hlater)

theorem Passes.stops (hpasses : Passes none skips symbols after) :
    ∀ symbol ∈ after.head?, skips symbol = false := by
  induction hpasses with
  | stop hstop => exact hstop
  | pass _ _ _ ih => exact ih

/-- What is passed over can be passed over with a line break behind the text. -/
theorem Passes.append_break (hpasses : Passes none skips symbols after)
    (hbreak : skips (.char '\n') = false) (more : List Symbol) :
    Passes none skips (symbols ++ .char '\n' :: more) (after ++ .char '\n' :: more) := by
  refine hpasses.append rfl (.stop fun symbol hsymbol => ?_)
  cases after with
  | nil =>
      obtain rfl : .char '\n' = symbol := by simpa using hsymbol
      exact hbreak
  | cons first rest => exact hpasses.stops symbol hsymbol

end Passing

/-- A lexeme of which nothing is noticed is the same when symbols follow that are part of none. -/
theorem lexeme_append {first : Symbol} {rest after text others : List Symbol} {kind : TokenKind}
    (hlexeme : lexeme none first rest = ⟨kind, text, [], after⟩)
    (hothers : readProblems none others = [])
    (hends : ∀ symbol ∈ others.head?, symbol.EndsLexeme) :
    lexeme none first (rest ++ others) = ⟨kind, text, [], after ++ others⟩ := by
  obtain ⟨hread, -⟩ := readable_of_lexeme hlexeme
  obtain ⟨tail, rfl, -, hlocal⟩ := lexeme_local hlexeme
  rw [List.append_assoc]
  refine hlocal _ (readProblems_append hread hothers) fun symbol hsymbol => ?_
  cases after with
  | nil => exact .inr (hends symbol hsymbol)
  | cons first rest => exact .inl hsymbol

/-- A lexeme is the same with a line break behind the text. -/
theorem lexeme_append_break {first : Symbol} {rest after text : List Symbol} {kind : TokenKind}
    (hlexeme : lexeme none first rest = ⟨kind, text, [], after⟩) (more : List Symbol) :
    lexeme none first (rest ++ .char '\n' :: more) =
      ⟨kind, text, [], after ++ .char '\n' :: more⟩ := by
  refine lexeme_append hlexeme rfl ?_
  simp [Symbol.EndsLexeme]

/-! ### Lines -/

/-- The words of two sources with a line break between them are those of the first one and then
those of the second one. -/
theorem Lexes.append {symbols more : List Symbol} {lines others : List (List Word)}
    (hlexes : Lexes none symbols lines) (hmore : Lexes none more others)
    (hread : readProblems none more = []) :
    Lexes none (symbols ++ .char '\n' :: more) (lines ++ others) := by
  induction hlexes with
  | finish hblank =>
      have hbreak : lexeme none (.char '\n') more = ⟨.single '\n', [.char '\n'], [], more⟩ := by
        rw [← hread]
        rfl
      exact .newline (hblank.append_break rfl more) hbreak hmore
  | word hblank hlexeme hkind _ ih =>
      exact .word (hblank.append_break rfl more) (lexeme_append_break hlexeme more) hkind ih
  | newline hblank hlexeme _ ih =>
      exact .newline (hblank.append_break rfl more) (lexeme_append_break hlexeme more) ih
  | comment hblank hlexeme hkind hskipped _ ih =>
      exact .comment (hblank.append_break rfl more) (lexeme_append_break hlexeme more) hkind
        (hskipped.append_break rfl more) ih

/-! ### Bytes -/

/-- A line break is no second byte of a character. -/
theorem ne_break_of_leadingByte? {lead low high second : UInt8} {count : Nat}
    (hlead : leadingByte? lead = some (low, high, count))
    (hsecond : ¬(second < low ∨ high < second)) : 10 ≠ second := by
  rintro rfl
  refine hsecond (.inl ?_)
  unfold leadingByte? at hlead
  repeat' split at hlead
  all_goals cases hlead
  all_goals decide

theorem ne_break_of_isTail {byte : UInt8} (htail : isTail byte = true) : 10 ≠ byte := by
  rintro rfl
  cases htail

/-- A byte is stray, or it starts a character that is read from its own bytes, whatever follows.
A line break is none of the bytes that belong to another one. -/
theorem firstSymbol_cases (lead : UInt8) (rest : List UInt8) :
    (∃ cut, firstSymbol lead rest = (.stray lead cut, 0)) ∨
      ∃ c tail others, rest = tail ++ others ∧ 10 ∉ tail ∧
        ∀ more, firstSymbol lead (tail ++ more) = (.char c, tail.length) := by
  -- a byte that the text ends too early for is stray, so a character never needs what follows
  by_cases hascii : lead < 0x80
  · exact .inr ⟨_, [], rest, rfl, by simp, fun more => by
      simp only [firstSymbol, if_pos hascii]
      rfl⟩
  cases hlead : leadingByte? lead with
  | none => exact .inl ⟨false, by simp [firstSymbol, hascii, hlead]⟩
  | some range =>
      obtain ⟨low, high, count⟩ := range
      cases rest with
      | nil => exact .inl ⟨true, by simp [firstSymbol, hascii, hlead]⟩
      | cons second rest =>
          by_cases hsecond : second < low ∨ high < second
          · exact .inl ⟨false, by simp [firstSymbol, hascii, hlead, hsecond]⟩
          have hfirst := ne_break_of_leadingByte? hlead hsecond
          match count, rest with
          | 0, rest =>
              exact .inr ⟨_, [second], rest, rfl, by simpa using hfirst, fun more => by
                simp only [firstSymbol, if_neg hascii, hlead, List.singleton_append,
                  if_neg hsecond]
                rfl⟩
          | count + 1, [] => exact .inl ⟨true, by simp [firstSymbol, hascii, hlead, hsecond]⟩
          | 1, third :: rest =>
              by_cases hthird : isTail third = true
              · have hboth := And.intro hfirst (ne_break_of_isTail hthird)
                exact .inr ⟨_, [second, third], rest, rfl, by simpa using hboth, fun more => by
                  simp only [firstSymbol, if_neg hascii, hlead, List.cons_append, List.nil_append,
                    if_neg hsecond, if_pos hthird]
                  rfl⟩
              · exact .inl ⟨false, by simp [firstSymbol, hascii, hlead, hsecond, hthird]⟩
          | count + 2, third :: rest =>
              by_cases hthird : isTail third = true
              · cases rest with
                | nil => exact .inl ⟨true, by simp [firstSymbol, hascii, hlead, hsecond, hthird]⟩
                | cons fourth rest =>
                    by_cases hfourth : isTail fourth = true
                    · have hall : 10 ≠ second ∧ 10 ≠ third ∧ 10 ≠ fourth :=
                        ⟨hfirst, ne_break_of_isTail hthird, ne_break_of_isTail hfourth⟩
                      exact .inr ⟨_, [second, third, fourth], rest, rfl, by simpa using hall,
                        fun more => by
                          simp only [firstSymbol, if_neg hascii, hlead, List.cons_append,
                            List.nil_append, if_neg hsecond, if_pos hthird, if_pos hfourth]
                          rfl⟩
                    · exact .inl ⟨false, by
                        simp [firstSymbol, hascii, hlead, hsecond, hthird, hfourth]⟩
              · exact .inl ⟨false, by simp [firstSymbol, hascii, hlead, hsecond, hthird]⟩

theorem readSymbols_eq (done : List Symbol) (skip : Nat) (bytes : List UInt8) :
    readSymbols done skip bytes = done.reverse ++ readSymbols [] skip bytes := by
  induction bytes generalizing done skip with
  | nil => cases skip <;> simp [readSymbols]
  | cons lead rest ih =>
      cases skip with
      | succ skip => exact ih done skip
      | zero =>
          simp only [readSymbols]
          rw [ih (_ :: done), ih [_], List.reverse_cons, List.append_assoc]
          rfl

theorem readSymbols_skip (done : List Symbol) (tail others : List UInt8) :
    readSymbols done tail.length (tail ++ others) = readSymbols done 0 others := by
  induction tail with
  | nil => rfl
  | cons byte tail ih => exact ih

theorem decodeUtf8_cons {lead : UInt8} {tail others : List UInt8} {symbol : Symbol}
    (hfirst : firstSymbol lead (tail ++ others) = (symbol, tail.length)) :
    decodeUtf8 (lead :: (tail ++ others)) = symbol :: decodeUtf8 others := by
  rw [decodeUtf8, readSymbols, hfirst]
  simp only [readSymbols_skip]
  exact readSymbols_eq [symbol] 0 others

/-- Characters are read one after the other, and nothing that follows changes them. -/
theorem decodeUtf8_append {bytes : List UInt8}
    (hfine : ∀ symbol ∈ decodeUtf8 bytes, symbol.Fine) (more : List UInt8) :
    decodeUtf8 (bytes ++ more) = decodeUtf8 bytes ++ decodeUtf8 more := by
  match bytes with
  | [] => rfl
  | lead :: rest =>
      rcases firstSymbol_cases lead rest with ⟨cut, hstray⟩ | ⟨c, tail, others, rfl, -, hfirst⟩
      · have hdecoded : decodeUtf8 (lead :: rest) = .stray lead cut :: decodeUtf8 rest :=
          @decodeUtf8_cons lead [] rest _ hstray
        rw [hdecoded, List.forall_mem_cons] at hfine
        obtain ⟨⟨c, -, hsame⟩, -⟩ := hfine
        cases hsame
      · rw [decodeUtf8_cons (hfirst others), List.forall_mem_cons] at hfine
        rw [decodeUtf8_cons (hfirst others), List.cons_append, List.append_assoc,
          decodeUtf8_cons (hfirst (others ++ more)), decodeUtf8_append hfine.2, List.cons_append]
termination_by bytes.length

/-- A line break ends the character before it, so both parts are decoded on their own. -/
theorem decodeUtf8_append_break {bytes : List UInt8}
    (hfine : ∀ symbol ∈ decodeUtf8 bytes, symbol.Fine) (more : List UInt8) :
    decodeUtf8 (bytes ++ 10 :: more) = decodeUtf8 bytes ++ .char '\n' :: decodeUtf8 more := by
  rw [decodeUtf8_append hfine]
  exact congrArg _ (readSymbols_eq [.char '\n'] 0 more)

/-! ### Sources -/

namespace Source

/-- The body of a text that goes on goes on in the same way. -/
theorem body_append_break {source joined : Source} {more : List Symbol}
    (hsymbols : joined.symbols = source.symbols ++ .char '\n' :: more) :
    joined.body = source.body ++ .char '\n' :: more := by
  by_cases hmark : source.symbols.head? = some (.char '\ufeff')
  · obtain ⟨rest, hrest⟩ := List.head?_eq_some_iff.mp hmark
    rw [body_of_mark hrest]
    rw [hrest] at hsymbols
    exact body_of_mark hsymbols
  · rw [body_of_head hmark, ← hsymbols]
    refine body_of_head ?_
    rw [hsymbols]
    cases hsource : source.symbols with
    | nil => simp
    | cons symbol rest =>
        rw [hsource] at hmark
        exact hmark

/-- The symbols of a source that can be read are fine. -/
theorem fine_of_readable {source : Source} (hreadable : Readable source.failure source.body) :
    ∀ symbol ∈ source.symbols, symbol.Fine := by
  have hbody : ∀ symbol ∈ source.body, symbol.Fine := by
    rw [← List.append_nil source.body] at hreadable
    exact (readable_append_iff.mp hreadable).1
  by_cases hmark : source.symbols.head? = some (.char '\ufeff')
  · obtain ⟨rest, hrest⟩ := List.head?_eq_some_iff.mp hmark
    rw [body_of_mark hrest] at hbody
    rw [hrest]
    exact List.forall_mem_cons.mpr ⟨⟨'\ufeff', by decide, rfl⟩, hbody⟩
  · rwa [body_of_head hmark] at hbody

/-- Two sources that are parsed without a notice are so when they are joined by a line break, and
give the same statements. -/
theorem parse_append_break {bytes more : List UInt8}
    (hbytes : (Source.ofBytes bytes none).parse.notices = [])
    (hmore : (Source.ofBytes more none).parse.notices = [])
    (hmark : (decodeUtf8 more).head? ≠ some (.char '\ufeff')) :
    (Source.ofBytes (bytes ++ 10 :: more) none).parse.notices = [] ∧
      (Source.ofBytes (bytes ++ 10 :: more) none).parse.statements.map Statement.unplaced =
        ((Source.ofBytes bytes none).parse.statements ++
          (Source.ofBytes more none).parse.statements).map Statement.unplaced := by
  obtain ⟨hreadable, words, hlexes, hlines⟩ := says_of_parse hbytes
  obtain ⟨hreads, others, hlexed, hothers⟩ := says_of_parse hmore
  have hsymbols : (Source.ofBytes (bytes ++ 10 :: more) none).symbols =
      (Source.ofBytes bytes none).symbols ++ .char '\n' :: (Source.ofBytes more none).symbols :=
    decodeUtf8_append_break (fine_of_readable hreadable) more
  have hbody := body_append_break hsymbols
  rw [body_of_head hmark] at hreads hlexed
  have hread : readProblems none (Source.ofBytes (bytes ++ 10 :: more) none).body = [] := by
    rw [hbody]
    exact readProblems_append hreadable.readProblems rfl
  have hjoined := hlexes.append hlexed hreads.readProblems
  rw [← hbody] at hjoined
  have hwording := says_of_lexes hread hjoined
  have hboth : ∀ line ∈ (Source.ofBytes bytes none).lines ++ (Source.ofBytes more none).lines,
      (parseLine line).notices = [] :=
    List.forall_mem_append.mpr
      ⟨notices_parse_eq_nil_iff.mp hbytes, notices_parse_eq_nil_iff.mp hmore⟩
  obtain ⟨hnotices, hsame⟩ :=
    parse_of_same_words (List.rel_append hlines hothers) hwording hboth
  rw [← notices_parse_eq_nil_iff] at hnotices
  refine ⟨hnotices, ?_⟩
  rw [statements_parse hnotices, statements_parse hbytes, statements_parse hmore,
    ← List.flatMap_append]
  exact hsame

end Source

end Octet
