import Octet.Proofs.Source.Parsing
import Octet.Proofs.Source.Places

/-! # What is said twice

A token that is flagged has been reported while it was read. The parser looks at the
flag of an operand, and says nothing about an operand that has it. It does not look at
the flag of the name of an instruction, or of what stands where a comma is expected, so
what is wrong with such a token can be reported a second time.
-/

namespace Octet

/-! ### Roles -/

/-- What a token is for the line that it stands in. -/
inductive Role where
  | label
  | colon
  | name
  | operand
  /-- Where a comma is expected. -/
  | separator
  deriving DecidableEq, Repr

/-- The roles of the tokens behind the name of an instruction. -/
def operandRoles : List Token → List Role
  | [] => []
  | [_] => [.operand]
  | _ :: _ :: rest => .operand :: .separator :: operandRoles rest

/-- The roles of the tokens of an instruction. -/
def instructionRoles : List Token → List Role
  | [] => []
  | _ :: rest => .name :: operandRoles rest

/-- The roles of the tokens of a line. -/
def lineRoles : List Token → List Role
  | first :: second :: rest =>
    if first.kind = .identifier ∧ second.kind = .single ':' then
      .label :: .colon :: instructionRoles rest
    else instructionRoles (first :: second :: rest)
  | tokens => instructionRoles tokens

/-- The token stands among the tokens of a line in the given role. -/
def Stands (tokens : List Token) (token : Token) (role : Role) : Prop :=
  (token, role) ∈ tokens.zip (lineRoles tokens)

theorem mem_operandRoles {tokens : List Token} {role : Role} (hrole : role ∈ operandRoles tokens) :
    role = .operand ∨ role = .separator := by
  fun_induction operandRoles tokens with
  | case1 => cases hrole
  | case2 => exact .inl (List.mem_singleton.mp hrole)
  | case3 _ _ rest ih =>
      rcases List.mem_cons.mp hrole with hfirst | hlater
      · exact .inl hfirst
      · rcases List.mem_cons.mp hlater with hsecond | hrest
        · exact .inr hsecond
        · exact ih hrest

theorem label_not_mem_instructionRoles (tokens : List Token) :
    .label ∉ instructionRoles tokens := by
  cases tokens with
  | nil => simp [instructionRoles]
  | cons name rest =>
      have hlater : .label ∉ operandRoles rest := fun hmem => by simpa using mem_operandRoles hmem
      simpa [instructionRoles] using hlater

theorem name_mem_zip_iff {tokens : List Token} {token : Token} :
    (token, .name) ∈ tokens.zip (instructionRoles tokens) ↔ ∃ rest, tokens = token :: rest := by
  cases tokens with
  | nil => simp
  | cons name rest =>
      have hlater : (token, .name) ∉ rest.zip (operandRoles rest) := fun hmem => by
        simpa using mem_operandRoles (List.of_mem_zip hmem).2
      simp [instructionRoles, hlater, eq_comm]

theorem lineRoles_of_label {first second : Token} {rest : List Token}
    (hlabel : first.kind = .identifier ∧ second.kind = .single ':') :
    lineRoles (first :: second :: rest) = .label :: .colon :: instructionRoles rest :=
  if_pos hlabel

/-- A label is a name, stands first on its line and has a colon behind it. -/
theorem Stands.of_label {tokens : List Token} {token : Token}
    (hstands : Stands tokens token .label) :
    ∃ colon rest, tokens = token :: colon :: rest ∧ token.kind = .identifier ∧
      colon.kind = .single ':' := by
  have hbody {part : List Token}
      (hmem : (token, .label) ∈ part.zip (instructionRoles part)) : False :=
    label_not_mem_instructionRoles part (List.of_mem_zip hmem).2
  unfold Stands lineRoles at hstands
  split at hstands
  next first second rest =>
    split at hstands
    next hlabel =>
      simp only [List.zip_cons_cons, List.mem_cons, Prod.mk.injEq, reduceCtorEq, and_false,
        and_true, false_or] at hstands
      rcases hstands with rfl | hlater
      · exact ⟨second, rest, rfl, hlabel⟩
      · exact (hbody hlater).elim
    next => exact (hbody hstands).elim
  next => exact (hbody hstands).elim

/-- What the parser adds to the notices of a line. -/
def SourceLine.complaints (line : SourceLine) : List Notice :=
  match statementOf line.tokens with
  | .ok _ => []
  | .error notices => notices

/-- What is noticed about a line is what was noticed while it was read, and then the complaints
about it. -/
theorem notices_parseLine (line : SourceLine) :
    (parseLine line).notices = line.notices ++ line.complaints := by
  unfold parseLine SourceLine.complaints
  cases statementOf line.tokens with
  | ok statement => exact (List.append_nil line.notices).symm
  | error notices => rfl

/-- What is noticed about a source is what is noticed about its lines, as far as there is room. -/
theorem Source.notices_parse (source : Source) :
    source.parse.notices =
      (source.lines.flatMap fun line => line.notices ++ line.complaints).take maxDiagnostics := by
  simp only [notices_parse_eq_take, notices_parseLine]

/-! ### What complaints are about -/

/-- The notice is about one of the tokens. It is about no colon, and about no operand that is
flagged. -/
def About (roles : List (Token × Role)) (notice : Notice) : Prop :=
  ∃ token role, (token, role) ∈ roles ∧ notice.place = token.place ∧ role ≠ .colon ∧
    (role = .operand → token.flagged = false)

theorem About.cons {roles : List (Token × Role)} {notice : Notice} (habout : About roles notice)
    (pair : Token × Role) : About (pair :: roles) notice := by
  obtain ⟨token, role, hmem, hrest⟩ := habout
  exact ⟨token, role, List.mem_cons_of_mem pair hmem, hrest⟩

theorem about_head {token : Token} {role : Role} {roles : List (Token × Role)} {notice : Notice}
    (hplace : notice.place = token.place) (hcolon : role ≠ .colon)
    (hoperand : role = .operand → token.flagged = false) : About ((token, role) :: roles) notice :=
  ⟨token, role, List.mem_cons_self, hplace, hcolon, hoperand⟩

theorem eq_of_mem_error {α : Type} {notice other : Notice} {notices : List Notice}
    (hsame : (Except.error [other] : Except (List Notice) α) = .error notices)
    (hnotice : notice ∈ notices) : notice = other := by
  obtain rfl := Except.error.inj hsame
  exact List.mem_singleton.mp hnotice

/-- A complaint about an operand is at its place, and the operand was not flagged. -/
theorem place_of_operandOf {token : Token} {notices : List Notice}
    (hoperand : operandOf token = .error notices) {notice : Notice} (hnotice : notice ∈ notices) :
    notice.place = token.place ∧ token.flagged = false := by
  unfold operandOf at hoperand
  split at hoperand
  next =>
    obtain rfl := Except.error.inj hoperand
    cases hnotice
  next hflag =>
    refine ⟨?_, by simpa using hflag⟩
    repeat' split at hoperand
    all_goals cases hoperand
    all_goals simp_all

/-- A complaint about operands is at the name of the instruction, or about one of their tokens. -/
theorem about_of_operandsFrom {place : Place} {done : List Operand} {tokens : List Token}
    {notices : List Notice} (hoperands : operandsFrom place done tokens = .error notices)
    {notice : Notice} (hnotice : notice ∈ notices) :
    notice.place = place ∨ About (tokens.zip (operandRoles tokens)) notice := by
  fun_induction operandsFrom place done tokens with
  | case1 => cases hoperands
  | case2 done first rest found hfound =>
      obtain rfl := Except.error.inj hoperands
      obtain ⟨hplace, hflag⟩ := place_of_operandOf hfound hnotice
      refine .inr ?_
      cases rest with
      | nil => exact about_head hplace (by decide) fun _ => hflag
      | cons comma rest => exact about_head hplace (by decide) fun _ => hflag
  | case3 => cases hoperands
  | case4 done first operand hoperand comma rest hcomma =>
      obtain rfl := eq_of_mem_error hoperands hnotice
      refine .inr ⟨comma, .separator, ?_, rfl, by decide, by simp⟩
      exact List.mem_cons_of_mem _ List.mem_cons_self
  | case5 =>
      obtain rfl := eq_of_mem_error hoperands hnotice
      exact .inl rfl
  | case6 done first operand hoperand comma rest hcomma hsome ih =>
      exact (ih hoperands).imp_right fun habout => (habout.cons _).cons _

/-- A complaint about the rest of a line is about one of its tokens. -/
theorem about_of_labelledStatement {place : Place} {label : Option String} {tokens : List Token}
    {notices : List Notice} (hstatement : labelledStatement place label tokens = .error notices)
    {notice : Notice} (hnotice : notice ∈ notices) :
    About (tokens.zip (instructionRoles tokens)) notice := by
  cases tokens with
  | nil => cases hstatement
  | cons name rest =>
      have hname (hplace : notice.place = name.place) :
          About ((name :: rest).zip (instructionRoles (name :: rest))) notice :=
        about_head hplace (by decide) (by simp)
      simp only [labelledStatement] at hstatement
      split at hstatement
      next found hfound =>
        obtain rfl := Except.error.inj hstatement
        simp only [instructionOf] at hfound
        split at hfound
        next =>
          obtain rfl := eq_of_mem_error hfound hnotice
          exact hname rfl
        next =>
          split at hfound
          next =>
            obtain rfl := eq_of_mem_error hfound hnotice
            exact hname rfl
          next =>
            split at hfound
            next hoperands =>
              obtain rfl := Except.error.inj hfound
              rcases about_of_operandsFrom hoperands hnotice with hplace | habout
              · exact hname hplace
              · exact habout.cons _
            next =>
              split at hfound
              next => cases hfound
              next =>
                obtain rfl := eq_of_mem_error hfound hnotice
                exact hname rfl
      next => cases hstatement

/-- The parser complains about one of the tokens of the line, and about no flagged operand. -/
theorem about_of_statementOf {tokens : List Token} {notices : List Notice}
    (hstatement : statementOf tokens = .error notices) {notice : Notice}
    (hnotice : notice ∈ notices) : About (tokens.zip (lineRoles tokens)) notice := by
  unfold statementOf at hstatement
  split at hstatement
  next => cases hstatement
  next only => exact about_of_labelledStatement (map_eq_error_iff.mp hstatement) hnotice
  next first second rest =>
    split at hstatement
    next hlabel =>
      simp only [lineRoles, if_pos hlabel]
      split at hstatement
      next =>
        obtain rfl := eq_of_mem_error hstatement hnotice
        exact about_head rfl (by decide) (by simp)
      next =>
        have habout := about_of_labelledStatement (map_eq_error_iff.mp hstatement) hnotice
        exact (habout.cons _).cons _
    next hlabel =>
      simp only [lineRoles, if_neg hlabel]
      exact about_of_labelledStatement (map_eq_error_iff.mp hstatement) hnotice

/-! ### Marks that are not looked at -/

/-- A token without its flag, unless it is an operand. -/
def unmark (token : Token) : Role → Token
  | .operand => token
  | _ => { token with flagged := false }

/-- The tokens of a line without the flags of all that are no operands. -/
def unmarked (tokens : List Token) : List Token := tokens.zipWith unmark (lineRoles tokens)

/-- Flags of separators do not bear on how operands are read. -/
theorem operandsFrom_unmark (place : Place) (done : List Operand) (tokens : List Token) :
    operandsFrom place done (tokens.zipWith unmark (operandRoles tokens)) =
      operandsFrom place done tokens := by
  fun_induction operandRoles tokens generalizing done with
  | case1 => rfl
  | case2 => rfl
  | case3 first second rest ih =>
      have hempty : (rest.zipWith unmark (operandRoles rest)).isEmpty = rest.isEmpty := by
        rcases rest with _ | ⟨_, _ | ⟨_, _⟩⟩ <;> rfl
      simp only [List.zipWith_cons_cons, unmark, operandsFrom, hempty, ih]

/-- Flags of names and separators do not bear on how the rest of a line is read. -/
theorem labelledStatement_unmark (place : Place) (label : Option String) (tokens : List Token) :
    labelledStatement place label (tokens.zipWith unmark (instructionRoles tokens)) =
      labelledStatement place label tokens := by
  cases tokens with
  | nil => rfl
  | cons name rest =>
      simp only [instructionRoles, List.zipWith_cons_cons, unmark, labelledStatement,
        instructionOf, operandsFrom_unmark]
      rfl

/-- Only the flags of operands matter for what a line is parsed as. -/
theorem statementOf_unmarked (tokens : List Token) :
    statementOf (unmarked tokens) = statementOf tokens := by
  match tokens with
  | [] => rfl
  | [only] => exact congrArg (Except.map some) (labelledStatement_unmark only.place none [only])
  | first :: second :: rest =>
      by_cases hlabel : first.kind = .identifier ∧ second.kind = .single ':'
      · simp only [unmarked, lineRoles, if_pos hlabel, List.zipWith_cons_cons, unmark, statementOf,
          labelledStatement_unmark]
        rfl
      · have hbody := labelledStatement_unmark first.place none (first :: second :: rest)
        obtain ⟨later, hlater⟩ : ∃ later,
            (first :: second :: rest).zipWith unmark (instructionRoles (first :: second :: rest)) =
              unmark first .name :: second :: later := by
          cases rest <;> exact ⟨_, rfl⟩
        rw [hlater] at hbody
        simp only [unmarked, lineRoles, if_neg hlabel, hlater, statementOf, ← hbody]
        exact if_neg hlabel

/-! ### Sources -/

/-- The notices of a source are those of its reading and those that the parser adds, as far as there
is room for them. Of a flagged token the parser adds one only where the token stands as the name of
an instruction or where a comma is expected; and there it adds what it would add without the
flag. -/
theorem complaints_of_flagged (source : Source) :
    (source.parse.notices =
        (source.lines.flatMap fun line => line.notices ++ line.complaints).take maxDiagnostics) ∧
      ∀ line ∈ source.lines,
        (∀ notice ∈ line.complaints, ∀ token ∈ source.tokens, token.flagged = true →
          notice.place = token.place →
            Stands line.tokens token .name ∨ Stands line.tokens token .separator) ∧
        line.complaints = SourceLine.complaints ⟨unmarked line.tokens, line.notices⟩ := by
  refine ⟨source.notices_parse, fun line hline => ⟨?_, ?_⟩⟩
  · intro notice hnotice token htoken hflag hplace
    simp only [SourceLine.complaints] at hnotice
    split at hnotice
    next => cases hnotice
    next notices hstatement =>
      obtain ⟨other, role, hstands, hsame, hcolon, hoperand⟩ :=
        about_of_statementOf hstatement hnotice
      have hother : other ∈ source.tokens :=
        List.mem_flatMap.mpr ⟨line, hline, (List.of_mem_zip hstands).1⟩
      obtain rfl : token = other :=
        source.ascending_tokens.eq_of_place htoken hother (hplace.symm.trans hsame)
      cases role with
      | label =>
          obtain ⟨colon, rest, htokens, hkind, hcolon⟩ := Stands.of_label hstands
          have hchain := Source.noLabel hline
          rw [htokens] at hchain
          exact absurd hcolon (hchain.rel hkind hflag)
      | colon => exact absurd rfl hcolon
      | name => exact .inl hstands
      | operand => cases hflag.symm.trans (hoperand rfl)
      | separator => exact .inr hstands
  · simp only [SourceLine.complaints, statementOf_unmarked]

/-- A number with a digit that its base does not have, where the name of an instruction is
expected. -/
def badName : Source := .ofBytes (utf8Bytes "08") none

/-- The same number where a comma is expected. -/
def badSeparator : Source := .ofBytes (utf8Bytes "push 1 08") none

/-- Something is reported by the parser at a token that has been reported before. -/
def Source.Repeats (source : Source) : Prop :=
  ∃ line ∈ source.lines, ∃ notice ∈ line.complaints, ∃ token ∈ source.tokens,
    token.flagged = true ∧ notice.place = token.place

/-- A number that is none, where an instruction is expected. -/
theorem repeats_badName : badName.Repeats := by
  unfold Source.Repeats
  decide +kernel

/-- A number that is none, where a comma is expected. -/
theorem repeats_badSeparator : badSeparator.Repeats := by
  unfold Source.Repeats
  decide +kernel

/-- The complaint is about a flagged token that stands for a separator. -/
theorem complaints_of_flagged_of_badSeparator :
    ∃ line ∈ badSeparator.lines, ∃ notice ∈ line.complaints, ∃ token ∈ badSeparator.tokens,
      token.flagged = true ∧ notice.place = token.place ∧
        (Stands line.tokens token .name ∨ Stands line.tokens token .separator) := by
  obtain ⟨line, hline, notice, hnotice, token, htoken, hflag, hplace⟩ := repeats_badSeparator
  obtain ⟨habout, -⟩ := (complaints_of_flagged badSeparator).2 line hline
  exact ⟨line, hline, notice, hnotice, token, htoken, hflag, hplace,
    habout notice hnotice token htoken hflag hplace⟩

/-- A token that has been noticed while it was read is complained about again. -/
theorem complaints_of_badNumber : badName.Repeats ∧ badSeparator.Repeats :=
  ⟨repeats_badName, repeats_badSeparator⟩

end Octet
