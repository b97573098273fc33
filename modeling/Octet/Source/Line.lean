import Octet.Source.Token

/-! # Lines of a source text

A line is the tokens up to a line break or the end of the source, without the
comment that a semicolon or a number sign starts, together with what was wrong
while it was read. The line break counts as the last token of its line.
-/

namespace Octet

/-- The tokens of a line and the notices made while reading it, in order. -/
structure SourceLine where
  tokens : List Token
  notices : List Notice
  deriving DecidableEq, Repr

/-- Where symbols have been passed to, and the notices so far, the last one first. -/
structure Passage where
  notices : List Notice
  place : Place
  symbols : List Symbol

/-- Passes the symbols that `skips` selects, the first of which stands at `place`. -/
def passWhile (failure : Option String) (skips : Symbol → Bool) (notices : List Notice)
    (place : Place) : List Symbol → Passage
  | [] => ⟨notices, place, []⟩
  | symbol :: rest =>
    if skips symbol then
      let next := place.after symbol
      passWhile failure skips ((readNotices failure place next rest).reverse ++ notices) next rest
    else ⟨notices, place, symbol :: rest⟩

/-- Skipping does not add symbols. -/
theorem length_passWhile (failure : Option String) (skips : Symbol → Bool)
    (notices : List Notice) (place : Place) (symbols : List Symbol) :
    (passWhile failure skips notices place symbols).symbols.length ≤ symbols.length := by
  induction symbols generalizing notices place with
  | nil => exact Nat.le_refl _
  | cons symbol rest ih =>
      unfold passWhile
      split
      · exact Nat.le_trans (ih _ _) (Nat.le_succ _)
      · exact Nat.le_refl _

/-- A token, or the end of the source, with the notices made since the token before it. -/
structure Scanned where
  /-- The notices in order. -/
  notices : List Notice
  /-- The token; none at the end of the source. -/
  token : Option Token
  /-- The place after the token. -/
  place : Place
  /-- The symbols after the token. -/
  symbols : List Symbol

/-- Reads the next token. `early` are notices made before, but after the token before it. -/
def scanToken (failure : Option String) (early : List Notice) (place : Place)
    (symbols : List Symbol) : Scanned :=
  let passage := passWhile failure isBlank early.reverse place symbols
  match passage.symbols with
  | [] => ⟨passage.notices.reverse, none, passage.place, []⟩
  | first :: rest =>
    let lexeme := lexeme failure first rest
    let notices := passage.notices.reverse ++ lexeme.problems.map (Notice.mk passage.place)
    ⟨notices, some ⟨lexeme.kind, lexeme.text, passage.place, !notices.isEmpty⟩,
      passage.place.afterAll lexeme.text, lexeme.rest⟩

/-- A token takes up a symbol at least. -/
theorem length_scanToken {failure : Option String} {early : List Notice} {place : Place}
    {symbols : List Symbol} {token : Token}
    (htoken : (scanToken failure early place symbols).token = some token) :
    (scanToken failure early place symbols).symbols.length < symbols.length := by
  have hpassage := length_passWhile failure isBlank early.reverse place symbols
  simp only [scanToken] at htoken ⊢
  generalize passWhile failure isBlank early.reverse place symbols = passage at hpassage htoken ⊢
  cases hsymbols : passage.symbols with
  | nil => simp [hsymbols] at htoken
  | cons first rest =>
      have hlexeme := length_lexeme failure first rest
      simp only [hsymbols, List.length_cons] at hpassage ⊢
      omega

/-- Whether a symbol does not end a comment. -/
def insideComment (symbol : Symbol) : Bool := symbol != .char '\n'

/-- Whether a token starts a comment. -/
def startsComment (token : Token) : Bool :=
  token.kind == .single ';' || token.kind == .single '#'

/-- The lines from `place` on. `tokens` and `notices` are those of the current line so far, and
`lines` are the lines before it, all with the last one first. -/
def linesFrom (failure : Option String) (lines : List SourceLine) (tokens : List Token)
    (notices early : List Notice) (place : Place) (symbols : List Symbol) : List SourceLine :=
  let scanned := scanToken failure early place symbols
  let notices := scanned.notices.reverse ++ notices
  match _htoken : scanned.token with
  | none => (⟨tokens.reverse, notices.reverse⟩ :: lines).reverse
  | some token =>
    if token.kind = .single '\n' then
      linesFrom failure (⟨tokens.reverse, notices.reverse⟩ :: lines) [] [] []
        scanned.place scanned.symbols
    else if startsComment token then
      let passage := passWhile failure insideComment notices scanned.place scanned.symbols
      linesFrom failure lines tokens passage.notices [] passage.place passage.symbols
    else
      linesFrom failure lines (token :: tokens) notices [] scanned.place scanned.symbols
termination_by symbols.length
decreasing_by
  · exact length_scanToken _htoken
  · exact Nat.lt_of_le_of_lt (length_passWhile failure insideComment _ _ _)
      (length_scanToken _htoken)
  · exact length_scanToken _htoken

/-- The lines of a source. A byte order mark at its start is passed over. -/
def Source.lines (source : Source) : List SourceLine :=
  let early := readNotices source.failure .start .start source.symbols
  match source.symbols with
  | .char '\ufeff' :: rest =>
    let place := Place.start.after (.char '\ufeff')
    linesFrom source.failure [] [] [] (readNotices source.failure .start place rest) place rest
  | symbols => linesFrom source.failure [] [] [] early .start symbols

end Octet
