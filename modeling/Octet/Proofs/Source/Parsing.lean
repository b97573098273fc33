import Octet.Proofs.Source.Wording
import Octet.Proofs.Source.Reading

/-! # What lines are parsed as

A source of which nothing is noticed is read to its end, and each of its lines that
holds anything is a statement. Which statement that is depends on the words of the line
alone, and not on where they stand.
-/

namespace Octet

/-! ### Lines that are no statements -/

theorem ne_nil_of_error_eq {α : Type} {notice : Notice} {notices : List Notice}
    (hsame : (Except.error [notice] : Except (List Notice) α) = .error notices) : notices ≠ [] := by
  obtain rfl := Except.error.inj hsame
  exact List.cons_ne_nil notice []

/-- An operand that is refused is noticed, unless it was before. -/
theorem notices_ne_nil_of_operandOf {token : Token} (hflag : token.flagged = false)
    {notices : List Notice} (hoperand : operandOf token = .error notices) : notices ≠ [] := by
  unfold operandOf at hoperand
  rw [hflag, if_neg Bool.false_ne_true] at hoperand
  repeat' split at hoperand
  all_goals first
    | exact ne_nil_of_error_eq hoperand
    | cases hoperand

theorem notices_ne_nil_of_operandsFrom {place : Place} {done : List Operand} {tokens : List Token}
    (hflags : ∀ token ∈ tokens, token.flagged = false) {notices : List Notice}
    (hoperands : operandsFrom place done tokens = .error notices) : notices ≠ [] := by
  fun_induction operandsFrom place done tokens with
  | case1 => cases hoperands
  | case2 _ first _ found hfound =>
      obtain rfl := Except.error.inj hoperands
      exact notices_ne_nil_of_operandOf (hflags first List.mem_cons_self) hfound
  | case3 => cases hoperands
  | case4 => exact ne_nil_of_error_eq hoperands
  | case5 => exact ne_nil_of_error_eq hoperands
  | case6 _ _ _ _ _ _ _ _ ih =>
      exact ih (fun token hmem => hflags token (by simp [hmem])) hoperands

theorem notices_ne_nil_of_instructionOf {name : Token} {rest : List Token}
    (hflags : ∀ token ∈ rest, token.flagged = false) {notices : List Notice}
    (hinstruction : instructionOf name rest = .error notices) : notices ≠ [] := by
  simp only [instructionOf] at hinstruction
  split at hinstruction
  next => exact ne_nil_of_error_eq hinstruction
  next =>
    split at hinstruction
    next => exact ne_nil_of_error_eq hinstruction
    next =>
      split at hinstruction
      next found hfound =>
        obtain rfl := Except.error.inj hinstruction
        exact notices_ne_nil_of_operandsFrom hflags hfound
      next =>
        split at hinstruction
        next => cases hinstruction
        next => exact ne_nil_of_error_eq hinstruction

/-- Tokens that were read without a notice are refused with one. -/
theorem notices_ne_nil_of_statementOf {tokens : List Token}
    (hflags : ∀ token ∈ tokens, token.flagged = false) {notices : List Notice}
    (hstatement : statementOf tokens = .error notices) : notices ≠ [] := by
  have hlabelled {place : Place} {label : Option String} {part : List Token}
      (hpart : ∀ token ∈ part, token ∈ tokens)
      (herror : labelledStatement place label part = .error notices) : notices ≠ [] := by
    cases part with
    | nil => cases herror
    | cons name rest =>
        simp only [labelledStatement] at herror
        split at herror
        next found hfound =>
          obtain rfl := Except.error.inj herror
          refine notices_ne_nil_of_instructionOf (fun token hmem => ?_) hfound
          exact hflags token (hpart token (List.mem_cons_of_mem name hmem))
        next => cases herror
  unfold statementOf at hstatement
  split at hstatement
  next => cases hstatement
  next only =>
    rw [map_eq_error_iff] at hstatement
    exact hlabelled (fun token hmem => hmem) hstatement
  next first second rest =>
    split at hstatement
    next =>
      split at hstatement
      next => exact ne_nil_of_error_eq hstatement
      next =>
        rw [map_eq_error_iff] at hstatement
        exact hlabelled (fun token hmem => by simp [hmem]) hstatement
    next =>
      rw [map_eq_error_iff] at hstatement
      exact hlabelled (fun token hmem => hmem) hstatement

/-! ### Statements without places -/

def Operand.unplaced (operand : Operand) : Operand := ⟨operand.value, .start⟩

def Instruction.unplaced (instruction : Instruction) : Instruction :=
  ⟨instruction.opcode, instruction.operands.map Operand.unplaced⟩

/-- A statement as it would be at the start of a source. -/
def Statement.unplaced (statement : Statement) : Statement :=
  ⟨.start, statement.label, statement.instruction.map Instruction.unplaced⟩

/-- The tokens differ in nothing but their places. -/
structure Token.Like (token other : Token) : Prop where
  kind : other.kind = token.kind
  chars : other.chars = token.chars
  flagged : other.flagged = token.flagged

theorem Token.Like.string {token other : Token} (hlike : token.Like other) :
    other.string = token.string := by
  rw [Token.string, hlike.chars, Token.string]

/-- Tokens that spell the same words are alike. -/
theorem like_of_spells {tokens others : List Token} {words : List Word}
    (hspells : Spells tokens words) (hothers : Spells others words) :
    List.Forall₂ Token.Like tokens others := by
  induction words generalizing tokens others with
  | nil =>
      rw [hspells.eq_nil, hothers.eq_nil]
      exact .nil
  | cons word words ih =>
      obtain ⟨token, rest, rfl, hkind, hchars, hflag, hrest⟩ := hspells.exists_cons
      obtain ⟨other, left, rfl, hsame, htext, hunflagged, hleft⟩ := hothers.exists_cons
      refine .cons ⟨?_, ?_, ?_⟩ (ih hrest hleft)
      · rw [hsame, hkind]
      · rw [htext, hchars]
      · rw [hunflagged, hflag]

/-- A token like an operand is the same operand at another place. -/
theorem operandOf_of_like {token other : Token} (hlike : token.Like other) {operand : Operand}
    (hoperand : operandOf token = .ok operand) :
    operandOf other = .ok ⟨operand.value, other.place⟩ := by
  unfold operandOf at hoperand ⊢
  rw [hlike.kind, hlike.chars, hlike.flagged, hlike.string]
  repeat' split at hoperand
  all_goals cases hoperand
  all_goals simp [*]

/-- Tokens like those of operands are the same operands at other places. -/
theorem operandsFrom_of_like {tokens others : List Token}
    (hlike : List.Forall₂ Token.Like tokens others) {place : Place}
    {done before operands : List Operand}
    (hdone : before.map Operand.unplaced = done.map Operand.unplaced)
    (hoperands : operandsFrom place done tokens = .ok operands) (spot : Place) :
    ∃ found, operandsFrom spot before others = .ok found ∧
      found.map Operand.unplaced = operands.map Operand.unplaced := by
  fun_induction operandsFrom place done tokens generalizing others before with
  | case1 done =>
      obtain rfl := List.forall₂_nil_left_iff.mp hlike
      obtain rfl := Except.ok.inj hoperands
      exact ⟨before.reverse, rfl, by rw [List.map_reverse, List.map_reverse, hdone]⟩
  | case2 => cases hoperands
  | case3 done first operand hoperand =>
      obtain ⟨other, _, hfirst, hnil, rfl⟩ := List.forall₂_cons_left_iff.mp hlike
      obtain rfl := List.forall₂_nil_left_iff.mp hnil
      obtain rfl := Except.ok.inj hoperands
      have hother := operandOf_of_like hfirst hoperand
      refine ⟨(⟨operand.value, other.place⟩ :: before).reverse, ?_, ?_⟩
      · simp only [operandsFrom, hother]
      · simp only [List.map_reverse, List.map_cons, hdone, Operand.unplaced]
  | case4 => cases hoperands
  | case5 => cases hoperands
  | case6 done first operand hoperand comma rest hcomma hsome ih =>
      obtain ⟨other, _, hfirst, htail, rfl⟩ := List.forall₂_cons_left_iff.mp hlike
      obtain ⟨second, left, hsecond, hrest, rfl⟩ := List.forall₂_cons_left_iff.mp htail
      have hother := operandOf_of_like hfirst hoperand
      have hleft : left.isEmpty = rest.isEmpty := by
        cases hrest <;> rfl
      have hread : (⟨operand.value, other.place⟩ :: before).map Operand.unplaced =
          (operand :: done).map Operand.unplaced := by
        simp only [List.map_cons, hdone, Operand.unplaced]
      obtain ⟨found, hfound, hsame⟩ := ih hrest hread hoperands
      refine ⟨found, ?_, hsame⟩
      simp only [operandsFrom, hother, hsecond.kind, if_neg hcomma, hleft, if_neg hsome, hfound]

theorem instructionOf_of_like {name other : Token} (hname : name.Like other)
    {tokens others : List Token} (hlike : List.Forall₂ Token.Like tokens others)
    {instruction : Instruction} (hinstruction : instructionOf name tokens = .ok instruction) :
    ∃ found, instructionOf other others = .ok found ∧
      found.unplaced = instruction.unplaced := by
  simp only [instructionOf] at hinstruction
  split at hinstruction
  next => cases hinstruction
  next hkind =>
    split at hinstruction
    next => cases hinstruction
    next hsome =>
      split at hinstruction
      next => cases hinstruction
      next operands hoperands =>
        have hnone : ([] : List Operand).map Operand.unplaced = [] := rfl
        obtain ⟨found, hfound, hsame⟩ := operandsFrom_of_like hlike hnone hoperands other.place
        have hkinds : (found.map fun operand => operand.value.kind) =
            operands.map fun operand => operand.value.kind := by
          have hmapped := congrArg (List.map fun operand => operand.value.kind) hsame
          rwa [List.map_map, List.map_map] at hmapped
        split at hinstruction
        next opcode hopcode =>
          obtain rfl := Except.ok.inj hinstruction
          refine ⟨⟨opcode, found⟩, ?_, by simp only [Instruction.unplaced, hsame]⟩
          simp only [instructionOf, hname.kind, hname.chars, if_neg hkind, if_neg hsome, hfound,
            hkinds, hopcode]
        next => cases hinstruction

theorem labelledStatement_of_like {tokens others : List Token}
    (hlike : List.Forall₂ Token.Like tokens others) {place : Place} {label : Option String}
    {statement : Statement} (hstatement : labelledStatement place label tokens = .ok statement)
    (spot : Place) :
    ∃ found, labelledStatement spot label others = .ok found ∧
      found.unplaced = statement.unplaced := by
  cases hlike with
  | nil =>
      obtain rfl := Except.ok.inj hstatement
      exact ⟨_, rfl, rfl⟩
  | @cons _ other _ _ hname hrest =>
      simp only [labelledStatement] at hstatement
      split at hstatement
      next => cases hstatement
      next instruction hinstruction =>
        obtain rfl := Except.ok.inj hstatement
        obtain ⟨found, hfound, hsame⟩ := instructionOf_of_like hname hrest hinstruction
        refine ⟨⟨other.place, label, some found⟩, ?_, ?_⟩
        · simp only [labelledStatement, hfound]
        · simp only [Statement.unplaced, Option.map_some, hsame]

/-- The words of a line decide what statement it is. -/
theorem statementOf_of_like {tokens others : List Token}
    (hlike : List.Forall₂ Token.Like tokens others) {statement : Option Statement}
    (hstatement : statementOf tokens = .ok statement) :
    ∃ found, statementOf others = .ok found ∧
      found.map Statement.unplaced = statement.map Statement.unplaced := by
  have hmap {part left : List Token} {place : Place} {label : Option String}
      (hpart : List.Forall₂ Token.Like part left)
      (hlabelled : (labelledStatement place label part).map some = .ok statement) (spot : Place) :
      ∃ found, (labelledStatement spot label left).map some = .ok found ∧
        found.map Statement.unplaced = statement.map Statement.unplaced := by
    obtain ⟨labelled, hresult, rfl⟩ := map_eq_ok_iff.mp hlabelled
    obtain ⟨found, hfound, hsame⟩ := labelledStatement_of_like hpart hresult spot
    exact ⟨some found, by rw [hfound]; rfl, congrArg some hsame⟩
  cases hlike with
  | nil => exact ⟨statement, hstatement, rfl⟩
  | @cons first other _ _ hfirst hlike =>
      cases hlike with
      | nil => exact hmap (.cons hfirst .nil) hstatement other.place
      | @cons second next _ _ hsecond hrest =>
          simp only [statementOf, hfirst.kind, hsecond.kind, hfirst.chars, hfirst.string]
            at hstatement ⊢
          split at hstatement
          next hlabel =>
            rw [if_pos hlabel]
            split at hstatement
            next => cases hstatement
            next hregister =>
              rw [if_neg hregister]
              exact hmap hrest hstatement other.place
          next hlabel =>
            rw [if_neg hlabel]
            exact hmap (.cons hfirst (.cons hsecond hrest)) hstatement other.place

/-! ### Sources -/

/-- A line with tokens that is not refused has a statement. -/
theorem exists_of_statementOf {tokens : List Token} (hsome : tokens ≠ [])
    {statement : Option Statement} (hstatement : statementOf tokens = .ok statement) :
    ∃ found, statement = some found := by
  unfold statementOf at hstatement
  split at hstatement
  next => exact absurd rfl hsome
  next =>
    obtain ⟨found, -, rfl⟩ := map_eq_ok_iff.mp hstatement
    exact ⟨found, rfl⟩
  next =>
    split at hstatement
    next =>
      split at hstatement
      next => cases hstatement
      next =>
        obtain ⟨found, -, rfl⟩ := map_eq_ok_iff.mp hstatement
        exact ⟨found, rfl⟩
    next =>
      obtain ⟨found, -, rfl⟩ := map_eq_ok_iff.mp hstatement
      exact ⟨found, rfl⟩

theorem notices_of_parseLine {line : SourceLine} (hparsed : (parseLine line).notices = []) :
    line.notices = [] := by
  unfold parseLine at hparsed
  split at hparsed
  next => exact hparsed
  next => exact (List.append_eq_nil_iff.mp hparsed).1

/-- A line that is parsed without a notice is a statement, unless it is empty. -/
theorem SourceLine.Says.exists_statementOf {line : SourceLine} {words : List Word}
    (hwording : line.Says words) (hparsed : (parseLine line).notices = []) :
    ∃ statement, statementOf line.tokens = .ok statement := by
  unfold parseLine at hparsed
  split at hparsed
  next statement hstatement => exact ⟨statement, hstatement⟩
  next notices herror =>
    obtain ⟨-, hnotices⟩ := List.append_eq_nil_iff.mp hparsed
    exact absurd hnotices (notices_ne_nil_of_statementOf hwording.1.2 herror)

/-- A source that is parsed without a notice is read to its end, and its lines say its words. -/
theorem Source.says_of_parse {source : Source} (hparsed : source.parse.notices = []) :
    Readable source.failure source.body ∧ ∃ words,
      Lexes source.failure source.body words ∧ List.Forall₂ SourceLine.Says source.lines words := by
  rw [Source.notices_parse_eq_nil_iff] at hparsed
  obtain ⟨hreadable, words, hlexes⟩ :=
    Source.readable_of_lines fun line hmem => notices_of_parseLine (hparsed line hmem)
  exact ⟨hreadable, words, hlexes, Source.says_of_lexes hreadable.readProblems hlexes⟩

theorem exists_says_of_mem {lines : List SourceLine} {words : List (List Word)}
    (hlines : List.Forall₂ SourceLine.Says lines words) {line : SourceLine} (hmem : line ∈ lines) :
    ∃ said, line.Says said := by
  induction hlines with
  | nil => cases hmem
  | cons hfirst _ ih =>
      rcases List.mem_cons.mp hmem with rfl | hlater
      · exact ⟨_, hfirst⟩
      · exact ih hlater

/-- A source that is parsed without a notice has been read to its end, and each line that holds
anything has become a statement. -/
theorem Source.complete_of_parse {source : Source} (hparsed : source.parse.notices = []) :
    source.failure = none ∧
      ∀ line ∈ source.lines, line.tokens ≠ [] → (parseLine line).statements ≠ [] := by
  obtain ⟨hreadable, words, -, hwording⟩ := Source.says_of_parse hparsed
  refine ⟨readable_nil_iff.mp fun rest hsuffix => hreadable rest ?_, ?_⟩
  · exact hsuffix.trans List.nil_suffix
  · intro line hline htokens
    obtain ⟨said, hsaid⟩ := exists_says_of_mem hwording hline
    obtain ⟨statement, hstatement⟩ :=
      hsaid.exists_statementOf (Source.notices_parse_eq_nil_iff.mp hparsed line hline)
    obtain ⟨found, rfl⟩ := exists_of_statementOf htokens hstatement
    simp [parseLine, hstatement]

/-- Lines with the same words have the same statement, at other places. -/
theorem parseLine_of_same_words {line other : SourceLine} {words : List Word}
    (hline : line.Says words) (hother : other.Says words)
    (hparsed : (parseLine line).notices = []) :
    (parseLine other).notices = [] ∧
      (parseLine other).statements.map Statement.unplaced =
        (parseLine line).statements.map Statement.unplaced := by
  obtain ⟨statement, hstatement⟩ := hline.exists_statementOf hparsed
  obtain ⟨found, hfound, hsame⟩ :=
    statementOf_of_like (like_of_spells hline.1 hother.1) hstatement
  simp only [parseLine, hstatement, hfound, hother.2, true_and]
  rw [← Option.toList_map, hsame, Option.toList_map]

/-- Lines that say the same words make the same statements. -/
theorem parse_of_same_words {lines others : List SourceLine} {words : List (List Word)}
    (hlines : List.Forall₂ SourceLine.Says lines words)
    (hothers : List.Forall₂ SourceLine.Says others words)
    (hparsed : ∀ line ∈ lines, (parseLine line).notices = []) :
    (∀ other ∈ others, (parseLine other).notices = []) ∧
      (others.flatMap fun other => (parseLine other).statements).map Statement.unplaced =
        (lines.flatMap fun line => (parseLine line).statements).map Statement.unplaced := by
  induction hlines generalizing others with
  | nil =>
      obtain rfl := List.forall₂_nil_right_iff.mp hothers
      simp
  | cons hline _ ih =>
      obtain ⟨other, rest, hother, hrest, rfl⟩ := List.forall₂_cons_right_iff.mp hothers
      obtain ⟨hfirst, hlater⟩ := List.forall_mem_cons.mp hparsed
      obtain ⟨hnotices, hstatements⟩ := parseLine_of_same_words hline hother hfirst
      obtain ⟨hunnoticed, hsame⟩ := ih hrest hlater
      refine ⟨List.forall_mem_cons.mpr ⟨hnotices, hunnoticed⟩, ?_⟩
      rw [List.flatMap_cons, List.map_append, hstatements, hsame, List.flatMap_cons,
        List.map_append]

end Octet
