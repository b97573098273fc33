import Mathlib.Data.List.Chain
import Mathlib.Data.List.Nodup
import Octet.Proofs.Source.Lexeme

/-! # Where tokens stand

Each token of a source stands behind the ones before it, so a place tells which token is
meant. A token can be flagged for the symbol behind it. If that symbol cannot be read,
it is the next token: so a name that is flagged is not followed by a colon, and is no
label.
-/

namespace Octet

variable {failure : Option String}

/-! ### Places -/

theorem Place.lt_after (place : Place) (symbol : Symbol) :
    place.offset < (place.after symbol).offset := by
  unfold after
  split
  · exact Nat.lt_succ_self place.offset
  · cases symbol with
    | char c => exact Nat.lt_add_of_pos_right c.utf8Size_pos
    | stray byte cut => exact Nat.lt_succ_self place.offset

theorem Place.le_afterAll (place : Place) (symbols : List Symbol) :
    place.offset ≤ (place.afterAll symbols).offset := by
  induction symbols generalizing place with
  | nil => exact Nat.le_refl place.offset
  | cons symbol rest ih => exact Nat.le_trans (place.lt_after symbol).le (ih (place.after symbol))

theorem Place.lt_afterAll (place : Place) {symbols : List Symbol} (hsome : symbols ≠ []) :
    place.offset < (place.afterAll symbols).offset := by
  cases symbols with
  | nil => exact absurd rfl hsome
  | cons symbol rest => exact Nat.lt_of_lt_of_le (place.lt_after symbol) (le_afterAll _ rest)

theorem le_passWhile (skips : Symbol → Bool) (notices : List Notice) (place : Place)
    (symbols : List Symbol) :
    place.offset ≤ (passWhile failure skips notices place symbols).place.offset := by
  induction symbols generalizing notices place with
  | nil => exact Nat.le_refl place.offset
  | cons symbol rest ih =>
      unfold passWhile
      split
      · exact Nat.le_trans (place.lt_after symbol).le (ih _ _)
      · exact Nat.le_refl place.offset

theorem text_characterLexeme_ne_nil (rest : List Symbol) :
    (characterLexeme failure rest).text ≠ [] := by
  let opened : LiteralReading := ⟨1, readProblems failure rest, rest⟩
  have htaken := LiteralReading.taken_elements failure 0 opened
  have hlength := LiteralReading.length_elements failure 0 opened
  have hpassed (reading : LiteralReading) : reading.taken ≤ (reading.advance failure).taken := by
    have hadvanced := LiteralReading.taken_advance failure reading
    have hleft := LiteralReading.length_advance failure reading
    omega
  have hpositive : 1 ≤ (opened.elements failure 0).2.taken := by
    have hone : opened.taken = 1 := rfl
    omega
  simp only [characterLexeme, ne_eq, List.take_eq_nil_iff, List.cons_ne_nil, or_false]
  split
  · exact Nat.pos_iff_ne_zero.mp (Nat.le_trans hpositive (hpassed _))
  · exact Nat.pos_iff_ne_zero.mp (Nat.le_trans hpositive (hpassed (LiteralReading.report _ _)))

theorem text_lexeme_ne_nil (first : Symbol) (rest : List Symbol) :
    (lexeme failure first rest).text ≠ [] := by
  rcases lexeme_cases failure first with hname | ⟨c, hinteger⟩ | hcharacter | hsingle
  · simp [hname]
  · simp [hinteger, integerLexeme]
  · rw [hcharacter]
    exact text_characterLexeme_ne_nil rest
  · simp [hsingle]

/-- A token stands where its reading began or behind that, and its reading ends behind it. -/
theorem place_of_scanToken {early : List Notice} {place : Place} {symbols : List Symbol}
    {token : Token} (htoken : (scanToken failure early place symbols).token = some token) :
    place.offset ≤ token.place.offset ∧
      token.place.offset < (scanToken failure early place symbols).place.offset := by
  have hpassage := @le_passWhile failure isBlank early.reverse place symbols
  simp only [scanToken] at htoken ⊢
  generalize passWhile failure isBlank early.reverse place symbols = passage at hpassage htoken ⊢
  obtain ⟨notices, spot, left⟩ := passage
  cases left with
  | nil => cases htoken
  | cons first rest =>
      obtain rfl := Option.some.inj htoken
      exact ⟨hpassage, Place.lt_afterAll spot (text_lexeme_ne_nil first rest)⟩

/-- The tokens stand one behind the other. -/
def Ascending (tokens : List Token) : Prop :=
  tokens.Pairwise fun token later => token.place.offset < later.place.offset

/-- Each token that is scanned comes behind those before it, in its line and in the lines before. -/
theorem ascending_linesFrom {lines : List SourceLine} {tokens : List Token}
    {notices early : List Notice} {place : Place} {symbols : List Symbol}
    (hascending : Ascending (lines.reverse.flatMap SourceLine.tokens ++ tokens.reverse))
    (hbefore : ∀ token ∈ lines.reverse.flatMap SourceLine.tokens ++ tokens.reverse,
      token.place.offset < place.offset) :
    Ascending ((linesFrom failure lines tokens notices early place symbols).flatMap
      SourceLine.tokens) := by
  -- all tokens so far stand before what is read next
  fun_induction linesFrom failure lines tokens notices early place symbols with
  | case1 lines tokens notices early place symbols scanned noticed htoken =>
      simpa using hascending
  | case2 lines tokens notices early place symbols scanned noticed token htoken hkind ih =>
      obtain ⟨hle, hlt⟩ : place.offset ≤ token.place.offset ∧
        token.place.offset < scanned.place.offset := place_of_scanToken htoken
      simp only [List.unattach_reverse, List.unattach_attach] at ih
      refine ih (by simpa using hascending) fun other hmem => ?_
      have hother := hbefore other (by simpa using hmem)
      omega
  | case3 lines tokens notices early place symbols scanned noticed token htoken _ hcomment
      passage ih =>
      obtain ⟨hle, hlt⟩ : place.offset ≤ token.place.offset ∧
        token.place.offset < scanned.place.offset := place_of_scanToken htoken
      have hpassed : scanned.place.offset ≤ passage.place.offset := le_passWhile _ _ _ _
      refine ih hascending fun other hmem => ?_
      have hother := hbefore other hmem
      omega
  | case4 lines tokens notices early place symbols scanned noticed token htoken hkind hcomment
      ih =>
      obtain ⟨hle, hlt⟩ : place.offset ≤ token.place.offset ∧
        token.place.offset < scanned.place.offset := place_of_scanToken htoken
      rw [List.reverse_cons, ← List.append_assoc] at ih
      refine ih (List.pairwise_append.mpr ⟨hascending, by simp, ?_⟩) fun other hmem => ?_
      · intro other hmem last hlast
        obtain rfl := List.mem_singleton.mp hlast
        exact Nat.lt_of_lt_of_le (hbefore other hmem) hle
      · rcases List.mem_append.mp hmem with hearlier | hlast
        · have hother := hbefore other hearlier
          omega
        · obtain rfl := List.mem_singleton.mp hlast
          exact hlt

/-- The tokens of a source, line by line. -/
def Source.tokens (source : Source) : List Token := source.lines.flatMap SourceLine.tokens

/-- The tokens of a source stand one behind the other. -/
theorem Source.ascending_tokens (source : Source) : Ascending source.tokens := by
  obtain ⟨previous, place, hlines⟩ := source.exists_lines_eq
  rw [tokens, hlines]
  exact ascending_linesFrom List.Pairwise.nil (by simp)

/-- No two tokens have the same place. -/
theorem Ascending.eq_of_place {tokens : List Token} (hascending : Ascending tokens)
    {token other : Token} (htoken : token ∈ tokens) (hother : other ∈ tokens)
    (hplace : token.place = other.place) : token = other := by
  have hnodup : (tokens.map fun token => token.place.offset).Nodup := by
    rw [List.Nodup, List.pairwise_map]
    exact hascending.imp fun hlt => Nat.ne_of_lt hlt
  exact List.inj_on_of_nodup_map hnodup htoken hother (by rw [hplace])

theorem Source.ascending_of_mem {source : Source} {line : SourceLine}
    (hline : line ∈ source.lines) :
    Ascending line.tokens := by
  refine source.ascending_tokens.sublist ?_
  rw [tokens, List.flatMap_def]
  exact List.sublist_flatten_of_mem (List.mem_map_of_mem hline)

/-! ### Flagged names -/

/-- Something noticed while blanks are skipped is about the symbol behind them. -/
theorem readProblems_of_passWhile {notices : List Notice} {place : Place} {symbols : List Symbol}
    (hearly : notices ≠ [] → readProblems failure symbols ≠ [])
    (hpassed : (passWhile failure isBlank notices place symbols).notices ≠ []) :
    readProblems failure (passWhile failure isBlank notices place symbols).symbols ≠ [] := by
  induction symbols generalizing notices place with
  | nil => exact hearly hpassed
  | cons symbol rest ih =>
      unfold passWhile at hpassed ⊢
      split at hpassed
      next hblank =>
        rw [if_pos hblank]
        refine ih (fun hnotices hread => ?_) hpassed
        have hnone : notices = [] := by
          by_contra hsome
          exact hearly hsome (readProblems_cons_eq_nil_iff.mpr (fine_of_isBlank hblank))
        simp [hnone, readNotices_eq_nil_iff.mpr hread] at hnotices
      next hblank =>
        rw [if_neg hblank]
        exact hearly hpassed

theorem kind_lexeme_eq_identifier {first : Symbol} {rest : List Symbol}
    (hkind : (lexeme failure first rest).kind = .identifier) :
    startsName first = true := by
  unfold lexeme at hkind
  split at hkind
  next hname => exact hname
  next =>
    split at hkind
    next =>
      split at hkind
      next => cases hkind
      next =>
        split at hkind
        next => cases hkind
        next => cases hkind
    next => cases hkind

/-- A name is flagged for the symbol behind it. -/
theorem readProblems_of_flagged {early : List Notice} {place : Place} {symbols : List Symbol}
    {token : Token} (hearly : early ≠ [] → readProblems failure symbols ≠ [])
    (htoken : (scanToken failure early place symbols).token = some token)
    (hkind : token.kind = .identifier) (hflag : token.flagged = true) :
    readProblems failure (scanToken failure early place symbols).symbols ≠ [] := by
  have hpassage : (passWhile failure isBlank early.reverse place symbols).notices ≠ [] →
      readProblems failure (passWhile failure isBlank early.reverse place symbols).symbols ≠ [] :=
    readProblems_of_passWhile (by simpa using hearly)
  simp only [scanToken] at htoken ⊢
  generalize passWhile failure isBlank early.reverse place symbols = passage at hpassage htoken ⊢
  obtain ⟨notices, spot, left⟩ := passage
  cases left with
  | nil => cases htoken
  | cons first rest =>
      obtain rfl := Option.some.inj htoken
      have hname := kind_lexeme_eq_identifier hkind
      have hfirst : first.Fine := by
        refine fine_of_continuesName ?_
        cases first with
        | char c => simp_all [startsName, continuesName]
        | stray byte cut => cases hname
      have hnone : notices = [] := by
        by_contra hsome
        exact hpassage hsome (readProblems_cons_eq_nil_iff.mpr hfirst)
      intro hread
      have hproblems : (lexeme failure first rest).problems = [] := by
        simpa [lexeme, hname] using hread
      simp [hnone, hproblems] at hflag

theorem kind_of_scanToken {first : Symbol} {rest : List Symbol} (hblank : isBlank first = false)
    {place : Place} {token : Token}
    (htoken : (scanToken failure [] place (first :: rest)).token = some token) :
    token.kind = (lexeme failure first rest).kind := by
  simp only [scanToken, passWhile, hblank, Bool.false_eq_true, ↓reduceIte] at htoken
  rw [← Option.some.inj htoken]

/-- What cannot be read is a token of its own. -/
theorem kind_ne_colon_of_unreadable {place : Place} {symbols : List Symbol} {token : Token}
    (hread : readProblems failure symbols ≠ [])
    (htoken : (scanToken failure [] place symbols).token = some token) :
    token.kind ≠ .single ':' := by
  cases symbols with
  | nil => cases htoken
  | cons symbol rest =>
      have hsymbol : symbol = .char '\x00' ∨ ∃ byte cut, symbol = .stray byte cut := by
        cases symbol with
        | char c => exact .inl (by simpa [readProblems] using hread)
        | stray byte cut => exact .inr ⟨byte, cut, rfl⟩
      rcases hsymbol with rfl | ⟨byte, cut, rfl⟩
      · have hkind : token.kind = .single '\x00' := kind_of_scanToken rfl htoken
        simp [hkind]
      · have hkind : token.kind = .single '\ufffd' := kind_of_scanToken rfl htoken
        simp [hkind]

theorem stops_passWhile (skips : Symbol → Bool) (notices : List Notice) (place : Place)
    (symbols : List Symbol) :
    ∀ symbol ∈ (passWhile failure skips notices place symbols).symbols.head?,
      skips symbol = false := by
  induction symbols generalizing notices place with
  | nil => exact fun symbol hsymbol => absurd hsymbol (by simp [passWhile])
  | cons first rest ih =>
      unfold passWhile
      split
      next => exact ih _ _
      next hstop => simpa using hstop

/-- There is no colon behind a comment. -/
theorem kind_ne_colon_of_comment {notices : List Notice} {place spot : Place}
    {symbols : List Symbol} {token : Token}
    (htoken : (scanToken failure [] spot
      (passWhile failure insideComment notices place symbols).symbols).token = some token) :
    token.kind ≠ .single ':' := by
  have hstops := @stops_passWhile failure insideComment notices place symbols
  generalize (passWhile failure insideComment notices place symbols).symbols = left at *
  cases left with
  | nil => cases htoken
  | cons symbol rest =>
      obtain rfl : symbol = .char '\n' := by simpa [insideComment] using hstops symbol rfl
      have hkind : token.kind = .single '\n' := kind_of_scanToken rfl htoken
      simp [hkind]

/-- A flagged name has no colon behind it. -/
def NoLabel (token next : Token) : Prop :=
  token.kind = .identifier → token.flagged = true → next.kind ≠ .single ':'

/-- Each token that is scanned leaves it so that no flagged name has a colon behind it. -/
theorem noLabel_linesFrom {lines : List SourceLine} {tokens : List Token}
    {notices early : List Notice} {place : Place} {symbols : List Symbol}
    (hlines : ∀ line ∈ lines, line.tokens.IsChain NoLabel)
    (htokens : tokens.reverse.IsChain NoLabel)
    (hlast : ∀ last ∈ tokens.head?, ∀ next,
      (scanToken failure early place symbols).token = some next → NoLabel last next)
    (hearly : early ≠ [] → readProblems failure symbols ≠ []) :
    ∀ line ∈ linesFrom failure lines tokens notices early place symbols,
      line.tokens.IsChain NoLabel := by
  fun_induction linesFrom failure lines tokens notices early place symbols with
  | case1 lines tokens notices early place symbols scanned noticed htoken =>
      intro line hline
      rcases List.mem_cons.mp (List.mem_reverse.mp hline) with rfl | hbefore
      · exact htokens
      · exact hlines line hbefore
  | case2 lines tokens notices early place symbols scanned noticed token htoken hkind ih =>
      simp only [List.unattach_reverse, List.unattach_attach] at ih
      exact ih (List.forall_mem_cons.mpr ⟨htokens, hlines⟩) .nil (by simp) (by simp)
  | case3 lines tokens notices early place symbols scanned noticed token htoken _ hcomment
      passage ih =>
      refine ih hlines htokens (fun last _ next hnext _ _ => ?_) (by simp)
      exact kind_ne_colon_of_comment hnext
  | case4 lines tokens notices early place symbols scanned noticed token htoken hkind hcomment
      ih =>
      refine ih hlines ?_ ?_ (by simp)
      · rw [List.reverse_cons]
        refine htokens.append (.singleton token) fun last hmem next hnext => ?_
        obtain rfl : token = next := by simpa using hnext
        exact hlast last (by simpa using hmem) token htoken
      · intro last hmem next hnext hname hflag
        obtain rfl : token = last := by simpa using hmem
        exact kind_ne_colon_of_unreadable (readProblems_of_flagged hearly htoken hname hflag) hnext

/-- In no line does a flagged name have a colon behind it. -/
theorem Source.noLabel {source : Source} {line : SourceLine} (hline : line ∈ source.lines) :
    line.tokens.IsChain NoLabel := by
  obtain ⟨previous, place, hlines⟩ := source.exists_lines_eq
  rw [hlines] at hline
  refine noLabel_linesFrom (by simp) .nil (by simp) ?_ line hline
  simp [readNotices]

end Octet
