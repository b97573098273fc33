import Octet.Proofs.Relocation
import Octet.Proofs.Source.Spacing

/-! # Other spacing

What a source says is in the words of its lines, and a line without words makes no
statement. So a source can be laid out in another way, with blanks before its lines,
blanks and comments behind them and lines of nothing else between them, and it is
assembled to the same program.
-/

namespace Octet

/-! ### Lines without words -/

/-- Leaves out the lines that say nothing. -/
def spoken (words : List (List Word)) : List (List Word) := words.filter fun line => !line.isEmpty

/-- Leaves out the lines without tokens. -/
def occupied (lines : List SourceLine) : List SourceLine :=
  lines.filter fun line => !line.tokens.isEmpty

theorem spoken_append (words others : List (List Word)) :
    spoken (words ++ others) = spoken words ++ spoken others := List.filter_append words others

theorem SourceLine.Says.isEmpty {line : SourceLine} {words : List Word} (hline : line.Says words) :
    words.isEmpty = line.tokens.isEmpty := by
  rw [← hline.1.1, List.isEmpty_map]

/-- Leaving out empty lines leaves out those without words. -/
theorem says_spoken {lines : List SourceLine} {words : List (List Word)}
    (hlines : List.Forall₂ SourceLine.Says lines words) :
    List.Forall₂ SourceLine.Says (occupied lines) (spoken words) := by
  induction hlines with
  | nil => exact .nil
  | @cons line said _ _ hline _ ih =>
      rw [occupied, spoken, List.filter_cons, List.filter_cons, hline.isEmpty]
      split
      · exact .cons hline ih
      · exact ih

theorem parseLine_of_isEmpty {line : SourceLine} (hempty : line.tokens.isEmpty = true) :
    parseLine line = ⟨[], line.notices⟩ := by
  rw [parseLine, List.isEmpty_iff.mp hempty]
  rfl

/-- Empty lines do not bear on the statements. -/
theorem flatMap_occupied (lines : List SourceLine) :
    ((occupied lines).flatMap fun line => (parseLine line).statements) =
      lines.flatMap fun line => (parseLine line).statements := by
  induction lines with
  | nil => rfl
  | cons line lines ih =>
      unfold occupied at ih ⊢
      rw [List.filter_cons, List.flatMap_cons]
      cases hempty : line.tokens.isEmpty with
      | true => simpa [parseLine_of_isEmpty hempty] using ih
      | false => simpa using ih

/-- Lines that say the same words make the same statements, whatever lines without words there are
between them. -/
theorem parse_of_spoken {lines others : List SourceLine} {words said : List (List Word)}
    (hlines : List.Forall₂ SourceLine.Says lines words)
    (hothers : List.Forall₂ SourceLine.Says others said) (hsame : spoken said = spoken words)
    (hparsed : ∀ line ∈ lines, (parseLine line).notices = []) :
    (∀ other ∈ others, (parseLine other).notices = []) ∧
      (others.flatMap fun other => (parseLine other).statements).map Statement.unplaced =
        (lines.flatMap fun line => (parseLine line).statements).map Statement.unplaced := by
  have hkept := says_spoken hothers
  rw [hsame] at hkept
  obtain ⟨hnotices, hstatements⟩ := parse_of_same_words (says_spoken hlines) hkept
    fun line hmem => hparsed line (List.mem_of_mem_filter hmem)
  rw [flatMap_occupied, flatMap_occupied] at hstatements
  refine ⟨fun other hmem => ?_, hstatements⟩
  cases hempty : other.tokens.isEmpty with
  | true =>
      obtain ⟨words, hsays⟩ := exists_says_of_mem hothers hmem
      rw [parseLine_of_isEmpty hempty, hsays.2]
  | false => exact hnotices other (List.mem_filter.mpr ⟨hmem, by simp [hempty]⟩)

/-! ### Other spacing -/

/-- Spaces, tabs and carriage returns. -/
def Blanks (bytes : List UInt8) : Prop := ∀ byte ∈ bytes, byte = 32 ∨ byte = 9 ∨ byte = 13

/-- What can stand behind a line without changing what it says: blanks, and perhaps a comment
behind them, whose text is any text without line breaks and NULs. -/
inductive Margin : List UInt8 → Prop
  | blanks {blanks : List UInt8} (hblanks : Blanks blanks) : Margin blanks
  | comment {blanks comment : List UInt8} {mark : UInt8} {text : String} (hblanks : Blanks blanks)
      (hmark : mark = 59 ∨ mark = 35) (htext : utf8Text? comment = some text)
      (hbreak : '\n' ∉ text.toList) (hnul : '\x00' ∉ text.toList) :
      Margin (blanks ++ mark :: comment)

/-- The lines with other spacing: each has blanks put before it and a margin behind it, and lines
that are nothing but a margin are put between them. -/
inductive Relaid : List (List UInt8) → List (List UInt8) → Prop
  | done : Relaid [] []
  | line {before line behind : List UInt8} {lines others : List (List UInt8)}
      (hbefore : Blanks before) (hbehind : Margin behind) (hrest : Relaid lines others) :
      Relaid (line :: lines) ((before ++ line ++ behind) :: others)
  | inserted {margin : List UInt8} {lines others : List (List UInt8)} (hmargin : Margin margin)
      (hrest : Relaid lines others) : Relaid lines (margin :: others)

theorem Relaid.ne_nil {lines others : List (List UInt8)} (hrelaid : Relaid lines others)
    (hsome : lines ≠ []) : others ≠ [] := by
  cases hrelaid with
  | done => exact hsome
  | line _ _ _ => exact List.cons_ne_nil _ _
  | inserted _ _ => exact List.cons_ne_nil _ _

theorem decodeUtf8_cons_of_lt {byte : UInt8} (hascii : byte < 0x80) (rest : List UInt8) :
    decodeUtf8 (byte :: rest) = .char (Char.ofNat byte.toNat) :: decodeUtf8 rest := by
  refine @decodeUtf8_cons byte [] rest _ ?_
  simp only [firstSymbol, if_pos hascii, List.length_nil]

theorem Blanks.isBlank {blanks : List UInt8} (hblanks : Blanks blanks) :
    ∀ symbol ∈ decodeUtf8 blanks, isBlank symbol = true := by
  induction blanks with
  | nil => exact fun symbol hmem => absurd hmem List.not_mem_nil
  | cons blank blanks ih =>
      obtain ⟨hfirst, hrest⟩ := List.forall_mem_cons.mp hblanks
      have hboth : blank < 0x80 ∧ Octet.isBlank (.char (Char.ofNat blank.toNat)) = true := by
        rcases hfirst with rfl | rfl | rfl <;> decide
      rw [decodeUtf8_cons_of_lt hboth.1]
      exact List.forall_mem_cons.mpr ⟨hboth.2, ih hrest⟩

theorem Blanks.fine {blanks : List UInt8} (hblanks : Blanks blanks) :
    ∀ symbol ∈ decodeUtf8 blanks, symbol.Fine :=
  fun symbol hmem => fine_of_isBlank (hblanks.isBlank symbol hmem)

/-- The symbols of a valid text are its characters. -/
theorem decodeUtf8_of_utf8Text? {bytes : List UInt8} {text : String}
    (htext : utf8Text? bytes = some text) : decodeUtf8 bytes = text.toList.map .char := by
  simp only [utf8Text?] at htext
  split at htext
  next hall =>
    obtain rfl := Option.some.inj htext
    have hself : ∀ symbol ∈ decodeUtf8 bytes, id symbol = (Symbol.char ∘ Symbol.toChar) symbol := by
      intro symbol hmem
      have hchar := List.all_eq_true.mp hall symbol hmem
      cases symbol with
      | char c => rfl
      | stray byte cut => cases hchar
    rw [symbolsText, String.toList_ofList, List.map_map, ← List.map_congr_left hself, List.map_id]
  next => cases htext

theorem Margin.ignored {margin : List UInt8} (hmargin : Margin margin) :
    Ignored (decodeUtf8 margin) := by
  cases hmargin with
  | blanks hblanks => exact .blanks hblanks.isBlank
  | @comment blanks comment mark text hblanks hmark htext hbreak hnul =>
      have hascii : mark < 0x80 := by rcases hmark with rfl | rfl <;> decide
      rw [decodeUtf8_append hblanks.fine, decodeUtf8_cons_of_lt hascii,
        decodeUtf8_of_utf8Text? htext]
      refine .comment hblanks.isBlank ?_ ?_
      · rcases hmark with rfl | rfl
        · exact .inl rfl
        · exact .inr rfl
      · intro symbol hmem
        obtain ⟨c, hc, rfl⟩ := List.mem_map.mp hmem
        refine ⟨?_, c, ?_, rfl⟩
        · have hother : c ≠ '\n' := fun hsame => hbreak (hsame ▸ hc)
          simpa [insideComment] using hother
        · exact fun hsame => hnul (hsame ▸ hc)

/-- What stands before a line and behind it does not change its symbols. -/
theorem decodeUtf8_relaid {before line : List UInt8} (hbefore : Blanks before)
    (hline : ∀ symbol ∈ decodeUtf8 line, symbol.Fine) (behind : List UInt8) :
    decodeUtf8 (before ++ line ++ behind) =
      decodeUtf8 before ++ decodeUtf8 line ++ decodeUtf8 behind := by
  rw [List.append_assoc, decodeUtf8_append hbefore.fine, decodeUtf8_append hline,
    List.append_assoc]

/-- Lines with other spacing say the same words. -/
theorem Relaid.exists_lexes {lines others : List (List UInt8)} (hrelaid : Relaid lines others)
    (hfine : ∀ line ∈ lines, ∀ symbol ∈ decodeUtf8 line, symbol.Fine)
    {parts : List (List (List Word))}
    (hparts : List.Forall₂ (Lexes none) (lines.map decodeUtf8) parts) :
    (∀ other ∈ others, ∀ symbol ∈ decodeUtf8 other, symbol.Fine) ∧
      ∃ later, List.Forall₂ (Lexes none) (others.map decodeUtf8) later ∧
        spoken later.flatten = spoken parts.flatten := by
  induction hrelaid generalizing parts with
  | done => exact ⟨hfine, parts, hparts, rfl⟩
  | @line before line behind lines others hbefore hbehind _ ih =>
      obtain ⟨part, rest, hline, hrest, rfl⟩ := List.forall₂_cons_left_iff.mp hparts
      obtain ⟨hlinefine, hlater⟩ := List.forall_mem_cons.mp hfine
      obtain ⟨hothers, later, hsaid, hspoken⟩ := ih hlater hrest
      have hdecoded := decodeUtf8_relaid hbefore hlinefine behind
      refine ⟨List.forall_mem_cons.mpr ⟨?_, hothers⟩, part :: later, .cons ?_ hsaid, ?_⟩
      · rw [hdecoded]
        exact List.forall_mem_append.mpr
          ⟨List.forall_mem_append.mpr ⟨hbefore.fine, hlinefine⟩, hbehind.ignored.fine⟩
      · rw [hdecoded]
        exact (hline.blanks_append (readProblems_of_fine hlinefine) hbefore.isBlank).append_ignored
          hbehind.ignored
      · rw [List.flatten_cons, List.flatten_cons, spoken_append, spoken_append, hspoken]
  | inserted hmargin _ ih =>
      obtain ⟨hothers, later, hsaid, hspoken⟩ := ih hfine hparts
      refine ⟨List.forall_mem_cons.mpr ⟨?_, hothers⟩, [[]] :: later,
        .cons hmargin.ignored.lexes hsaid, hspoken⟩
      exact hmargin.ignored.fine

theorem mem_head?_intercalate {chunk : List Symbol} {chunks : List (List Symbol)} {symbol : Symbol}
    (hhead : symbol ∈ ([.char '\n'].intercalate (chunk :: chunks)).head?) :
    symbol ∈ chunk.head? ∨ symbol = .char '\n' := by
  cases chunks with
  | nil => exact .inl (by simpa using hhead)
  | cons next chunks =>
      rw [List.intercalate_cons_cons, List.append_assoc] at hhead
      cases chunk with
      | nil => exact .inr (by simpa [eq_comm] using hhead)
      | cons first chunk => exact .inl hhead

theorem head?_intercalate_of_mem {chunk : List Symbol} {symbol : Symbol}
    (hhead : symbol ∈ chunk.head?) (chunks : List (List Symbol)) :
    symbol ∈ ([.char '\n'].intercalate (chunk :: chunks)).head? := by
  obtain ⟨rest, rfl⟩ := List.head?_eq_some_iff.mp hhead
  cases chunks with
  | nil => simp
  | cons next chunks => simp [List.intercalate_cons_cons]

/-- Other spacing starts with what the lines start with, or with a symbol that is part of no
lexeme. -/
theorem Relaid.endsBefore {lines others : List (List UInt8)} (hrelaid : Relaid lines others)
    (hfine : ∀ line ∈ lines, ∀ symbol ∈ decodeUtf8 line, symbol.Fine) :
    EndsBefore ([.char '\n'].intercalate (lines.map decodeUtf8))
      ([.char '\n'].intercalate (others.map decodeUtf8)) := by
  intro symbol hsymbol
  have hbreak : Symbol.EndsLexeme (.char '\n') := by simp [Symbol.EndsLexeme]
  cases hrelaid with
  | done => cases hsymbol
  | @line before line behind lines others hbefore hbehind _ =>
      obtain ⟨hline, -⟩ := List.forall_mem_cons.mp hfine
      rcases mem_head?_intercalate hsymbol with hfirst | rfl
      · rw [decodeUtf8_relaid hbefore hline, Option.mem_def, List.head?_append, List.head?_append,
          Option.or_eq_some_iff, Option.or_eq_some_iff] at hfirst
        rcases hfirst with (hfront | ⟨-, hhere⟩) | ⟨-, hlast⟩
        · have hmem := List.mem_of_mem_head? hfront
          exact .inr (endsLexeme_of_isBlank (hbefore.isBlank symbol hmem))
        · exact .inl (head?_intercalate_of_mem hhere _)
        · exact .inr (hbehind.ignored.endsLexeme symbol hlast)
      · exact .inr hbreak
  | inserted hmargin _ =>
      rcases mem_head?_intercalate hsymbol with hfirst | rfl
      · exact .inr (hmargin.ignored.endsLexeme symbol hfirst)
      · exact .inr hbreak

/-- A source with other spacing is parsed as the same statements. -/
theorem Source.parse_relaid {bytes : List UInt8} {lines : List (List UInt8)}
    (hrelaid : Relaid (bytes.splitOn 10) lines)
    (hmark : (decodeUtf8 bytes).head? ≠ some (.char '\ufeff'))
    (hparsed : (Source.ofBytes bytes none).parse.notices = []) :
    (Source.ofBytes ([10].intercalate lines) none).parse.notices = [] ∧
      (Source.ofBytes ([10].intercalate lines) none).parse.statements.map Statement.unplaced =
        (Source.ofBytes bytes none).parse.statements.map Statement.unplaced := by
  obtain ⟨hreadable, words, hlexes, hsays⟩ := says_of_parse hparsed
  have hfine : ∀ symbol ∈ decodeUtf8 bytes, symbol.Fine := fine_of_readable hreadable
  have hbody : (Source.ofBytes bytes none).body = decodeUtf8 bytes := body_of_head hmark
  have hbytes : [10].intercalate (bytes.splitOn 10) = bytes := List.intercalate_splitOn 10
  have hsome : bytes.splitOn 10 ≠ [] := List.splitOn_ne_nil 10 bytes
  generalize bytes.splitOn 10 = original at *
  subst hbytes
  have hlines := fine_of_intercalate hfine
  rw [hbody, decodeUtf8_intercalate hlines] at hlexes
  rw [decodeUtf8_intercalate hlines] at hmark
  obtain ⟨parts, hparts, rfl⟩ := exists_lexes_of_intercalate (by simpa using hsome) hlexes
  obtain ⟨hothers, later, hsaid, hspoken⟩ := hrelaid.exists_lexes hlines hparts
  have hlater : lines.map decodeUtf8 ≠ [] := by simpa using hrelaid.ne_nil hsome
  have hunmarked : (decodeUtf8 ([10].intercalate lines)).head? ≠ some (.char '\ufeff') := by
    rw [decodeUtf8_intercalate hothers]
    intro hhead
    rcases hrelaid.endsBefore hlines _ hhead with hsame | hend
    · exact hmark hsame
    · exact absurd hend (by simp [Symbol.EndsLexeme])
  have hnewbody : (Source.ofBytes ([10].intercalate lines) none).body =
      [.char '\n'].intercalate (lines.map decodeUtf8) :=
    (body_of_head hunmarked).trans (decodeUtf8_intercalate hothers)
  obtain ⟨hrelexed, hread⟩ := lexes_intercalate hlater (List.forall_mem_map.mpr hothers) hsaid
  rw [← hnewbody] at hrelexed hread
  obtain ⟨hnotices, hsame⟩ := parse_of_spoken hsays (says_of_lexes hread hrelexed) hspoken
    (notices_parse_eq_nil_iff.mp hparsed)
  rw [← notices_parse_eq_nil_iff] at hnotices
  refine ⟨hnotices, ?_⟩
  rw [statements_parse hnotices, statements_parse hparsed]
  exact hsame

/-- A source that is assembled, and does not start with a byte order mark, is assembled to the same
program with other spacing: with blanks before its lines, blanks and comments behind them, and lines
between them that hold nothing else. -/
theorem assemble_relaid {registers : Int} {assembler other : Assembler}
    (hassembler : assembler.Reachable registers) (hother : other.Reachable registers)
    {bytes : List UInt8} (hmark : (decodeUtf8 bytes).head? ≠ some (.char '\ufeff'))
    {name : String} {cluster : Cluster}
    (hassembled : (assembler.assemble name (.ofBytes bytes none)).result = .ok cluster)
    {lines : List (List UInt8)} (hrelaid : Relaid (bytes.splitOn 10) lines) (called : String) :
    (other.assemble called (.ofBytes ([10].intercalate lines) none)).result = .ok cluster := by
  obtain ⟨hparsed, -⟩ := Assembler.accepted_of_assemble hassembler.ready hassembled
  obtain ⟨hnotices, hsame⟩ := Source.parse_relaid hrelaid hmark hparsed
  exact Assembler.result_of_unplaced hassembler.ready hother.ready hassembled hnotices hsame

/-- The lines of `branchToEnd` with other spacing. -/
def spacedBranch : List (List UInt8) :=
  [utf8Bytes "\ta: jmp b \r; it's: \u00e9", utf8Bytes " # b:", utf8Bytes "b:\r"]

theorem relaid_spacedBranch : Relaid (branchToEnd.splitOn 10) spacedBranch := by
  have hsplit : branchToEnd.splitOn 10 = [utf8Bytes "a: jmp b", utf8Bytes "b:"] := by
    decide +kernel
  have hfirst : utf8Bytes "\ta: jmp b \r; it's: \u00e9" =
      [9] ++ utf8Bytes "a: jmp b" ++ ([32, 13] ++ 59 :: utf8Bytes " it's: \u00e9") := by
    decide +kernel
  have hsecond : utf8Bytes " # b:" = [32] ++ 35 :: utf8Bytes " b:" := by decide +kernel
  have hthird : utf8Bytes "b:\r" = [] ++ utf8Bytes "b:" ++ [13] := by decide +kernel
  have hcomment : utf8Text? (utf8Bytes " it's: \u00e9") = some " it's: \u00e9" := by decide +kernel
  have hinserted : utf8Text? (utf8Bytes " b:") = some " b:" := by decide +kernel
  rw [hsplit, spacedBranch, hfirst, hsecond, hthird]
  refine .line (by simp [Blanks]) (.comment (by simp [Blanks]) (.inl rfl) hcomment ?_ ?_)
    (.inserted (.comment (by simp [Blanks]) (.inr rfl) hinserted ?_ ?_)
      (.line (by simp [Blanks]) (.blanks (by simp [Blanks])) .done)) <;>
    decide +kernel

/-- A branch with margins, comments and empty lines around it. -/
theorem assemble_relaid_of_spacedBranch :
    ((⟨1, false, .empty, .empty⟩ : Assembler).assemble ""
        (.ofBytes ([10].intercalate spacedBranch) none)).result = .ok (.ofCode #[34, 3, 0]) := by
  have hassembler : Assembler.Reachable 1 ⟨1, false, .empty, .empty⟩ := .new rfl
  exact assemble_relaid hassembler hassembler (by decide +kernel) assemble_branches.1
    relaid_spacedBranch ""

end Octet
