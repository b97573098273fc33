import Mathlib.Tactic.Common
import Octet.Source.Statement

/-! # Recording what is wrong with a source

Notices are recorded one by one until there are enough of them. What is recorded is then
the beginning of all there is to notice, and no line is parsed behind the one with which
there were enough. A source with fewer notices is parsed to its end, so its statements
are those of its lines.
-/

namespace Octet

namespace Notice

variable {notices found : List Notice} {notice other : Notice}

@[simp] theorem enough_nil : enough [] = false := rfl

/-- As long as there are not enough notices, there is room for another one. -/
theorem enough_eq_false_iff : enough notices = false ↔ notices.length < maxDiagnostics := by
  simp [enough]

theorem record_of_enough (henough : enough notices = true) : record notices notice = notices :=
  if_pos henough

theorem record_of_room (hroom : enough notices = false) :
    record notices notice = notice :: notices :=
  if_neg (by simp [hroom])

/-- Something is recorded when there is something to notice. -/
@[simp] theorem record_ne_nil : record notices notice ≠ [] := by
  cases henough : enough notices with
  | false => simp [record_of_room henough]
  | true =>
      rw [record_of_enough henough]
      rintro rfl
      cases henough

/-- Only what is noticed is recorded. -/
theorem mem_of_mem_record (hmem : other ∈ record notices notice) :
    other = notice ∨ other ∈ notices := by
  unfold record at hmem
  split at hmem
  next => exact .inr hmem
  next => exact List.mem_cons.mp hmem

/-- Recording a notice keeps to the limit. -/
theorem length_record_le (hbound : notices.length ≤ maxDiagnostics) :
    (record notices notice).length ≤ maxDiagnostics := by
  cases henough : enough notices with
  | true => rwa [record_of_enough henough]
  | false =>
      rw [record_of_room henough]
      exact enough_eq_false_iff.mp henough

/-- Recording keeps to the limit. -/
theorem length_recordAll_le (hbound : notices.length ≤ maxDiagnostics) :
    (recordAll notices found).length ≤ maxDiagnostics := by
  induction found generalizing notices with
  | nil => exact hbound
  | cons first rest ih => exact ih (length_record_le hbound)

/-- Nothing is recorded only if there is nothing to notice. -/
theorem recordAll_eq_nil_iff : recordAll notices found = [] ↔ notices = [] ∧ found = [] := by
  induction found generalizing notices with
  | nil => simp [recordAll]
  | cons first rest ih =>
      refine iff_of_false ?_ (by simp)
      intro hnone
      exact record_ne_nil (ih.mp hnone).1

theorem mem_of_mem_recordAll (hmem : other ∈ recordAll notices found) :
    other ∈ found ∨ other ∈ notices := by
  induction found generalizing notices with
  | nil => exact .inr hmem
  | cons first rest ih =>
      rcases ih hmem with hrest | hrecorded
      · exact .inl (List.mem_cons_of_mem first hrest)
      · rcases mem_of_mem_record hrecorded with rfl | hbefore
        · exact .inl List.mem_cons_self
        · exact .inr hbefore

/-- In order, what is recorded is as much of what was found as there is room for. -/
theorem reverse_record (hbound : notices.length ≤ maxDiagnostics) :
    (record notices notice).reverse = (notices.reverse ++ [notice]).take maxDiagnostics := by
  cases henough : enough notices with
  | true =>
      have hlength : notices.reverse.length = maxDiagnostics := by
        rw [List.length_reverse]
        exact Nat.le_antisymm hbound (of_decide_eq_true henough)
      rw [record_of_enough henough, List.take_left' hlength]
  | false =>
      have hroom := enough_eq_false_iff.mp henough
      rw [record_of_room henough, List.reverse_cons, List.take_of_length_le]
      rw [List.length_append, List.length_reverse, List.length_singleton]
      exact hroom

/-- What is kept of a list that is cut and goes on is what is kept of the whole. -/
theorem take_take_append {α : Type} (count : Nat) (front back : List α) :
    (front.take count ++ back).take count = (front ++ back).take count := by
  rw [List.take_append, List.take_append, List.take_take, Nat.min_self, List.length_take,
    show count - min count front.length = count - front.length by omega]

/-- What is recorded of some notices is their beginning. -/
theorem reverse_recordAll (hbound : notices.length ≤ maxDiagnostics) :
    (recordAll notices found).reverse = (notices.reverse ++ found).take maxDiagnostics := by
  induction found generalizing notices with
  | nil => rw [List.append_nil, List.take_of_length_le (by simpa using hbound), recordAll,
      List.foldl_nil]
  | cons first rest ih =>
      calc (recordAll (record notices first) rest).reverse
          = ((record notices first).reverse ++ rest).take maxDiagnostics :=
            ih (length_record_le hbound)
        _ = (notices.reverse ++ [first] ++ rest).take maxDiagnostics := by
            rw [reverse_record hbound, take_take_append]
        _ = (notices.reverse ++ first :: rest).take maxDiagnostics := by
            rw [List.append_assoc, List.singleton_append]

end Notice

/-! ### Lines -/

/-- What one line contributes, whatever was noticed before it. -/
def parseLine (line : SourceLine) : Parsed :=
  match statementOf line.tokens with
  | .ok statement => ⟨statement.toList, line.notices⟩
  | .error notices => ⟨[], line.notices ++ notices⟩

section Lines

variable {statements : List Statement} {notices : List Notice}

/-- No line makes for more notices than there is room for. -/
theorem length_notices_parseLines_le (hbound : notices.length ≤ maxDiagnostics)
    (lines : List SourceLine) :
    (parseLines statements notices lines).notices.length ≤ maxDiagnostics := by
  induction lines generalizing statements notices with
  | nil =>
      rw [parseLines, List.length_reverse]
      exact hbound
  | cons line lines ih =>
      have hread : (Notice.recordAll notices line.notices).length ≤ maxDiagnostics :=
        Notice.length_recordAll_le hbound
      simp only [parseLines]
      split
      next =>
        rw [List.length_reverse]
        exact hread
      next =>
        split
        next => exact ih hread
        next => exact ih (Notice.length_recordAll_le hread)

/-- The notices that are recorded are the first ones of those of all lines. -/
theorem notices_parseLines (hbound : notices.length ≤ maxDiagnostics) (lines : List SourceLine) :
    (parseLines statements notices lines).notices =
      (notices.reverse ++ lines.flatMap fun line => (parseLine line).notices).take
        maxDiagnostics := by
  induction lines generalizing statements notices with
  | nil => rw [List.flatMap_nil, List.append_nil, List.take_of_length_le (by simpa using hbound),
      parseLines]
  | cons line lines ih =>
      have hread : (Notice.recordAll notices line.notices).length ≤ maxDiagnostics :=
        Notice.length_recordAll_le hbound
      have hfront (back : List Notice) :
          ((Notice.recordAll notices line.notices).reverse ++ back).take maxDiagnostics =
            (notices.reverse ++ (line.notices ++ back)).take maxDiagnostics := by
        rw [Notice.reverse_recordAll hbound, Notice.take_take_append, List.append_assoc]
      simp only [parseLines]
      split
      next henough =>
        -- the notices of this line are the last ones for which there is room
        have hlength : (Notice.recordAll notices line.notices).reverse.length = maxDiagnostics := by
          rw [List.length_reverse]
          exact Nat.le_antisymm hread (of_decide_eq_true henough)
        have hstop (back : List Notice) : (Notice.recordAll notices line.notices).reverse =
            (notices.reverse ++ (line.notices ++ back)).take maxDiagnostics := by
          rw [← hfront, List.take_left' hlength]
        rw [List.flatMap_cons, parseLine]
        cases statementOf line.tokens with
        | ok statement => exact hstop _
        | error found =>
            rw [List.append_assoc]
            exact hstop _
      next =>
        rw [List.flatMap_cons, parseLine]
        cases statementOf line.tokens with
        | ok statement =>
            rw [ih hread]
            exact hfront _
        | error found =>
            rw [ih (Notice.length_recordAll_le hread), Notice.reverse_recordAll hread,
              Notice.take_take_append, List.append_assoc, hfront, List.append_assoc]

/-- The statements are those of the lines up to the one with which there are enough notices. -/
theorem exists_read_parseLines (lines : List SourceLine) :
    ∃ read, read <+: lines ∧
      (parseLines statements notices lines).statements =
        statements.reverse ++ read.flatMap (fun line => (parseLine line).statements) ∧
      ((parseLines statements notices lines).notices.length < maxDiagnostics → read = lines) := by
  induction lines generalizing statements notices with
  | nil => exact ⟨[], List.prefix_refl _, by simp [parseLines], fun _ => rfl⟩
  | cons line lines ih =>
      simp only [parseLines]
      split
      next henough =>
        refine ⟨[], List.nil_prefix, by simp, ?_⟩
        intro hlength
        rw [List.length_reverse] at hlength
        exact absurd (of_decide_eq_true henough) (Nat.not_le.mpr hlength)
      next =>
        cases hstatement : statementOf line.tokens with
        | ok statement =>
            obtain ⟨read, hread, hstatements, hall⟩ := @ih (statement.toList ++ statements)
              (Notice.recordAll notices line.notices)
            refine ⟨line :: read, List.cons_prefix_cons.mpr ⟨rfl, hread⟩, ?_, ?_⟩
            · have hone : statement.toList.reverse = statement.toList := by cases statement <;> rfl
              rw [hstatements, List.flatMap_cons, parseLine, hstatement, List.reverse_append, hone,
                List.append_assoc]
            · intro hlength
              rw [hall hlength]
        | error found =>
            obtain ⟨read, hread, hstatements, hall⟩ := @ih statements
              (Notice.recordAll (Notice.recordAll notices line.notices) found)
            refine ⟨line :: read, List.cons_prefix_cons.mpr ⟨rfl, hread⟩, ?_, ?_⟩
            · rw [hstatements, List.flatMap_cons, parseLine, hstatement]
              rfl
            · intro hlength
              rw [hall hlength]

end Lines

/-! ### Sources -/

namespace Source

variable {source : Source}

/-- What is noticed about a source is as much of what is noticed about its lines as there is room
for. -/
theorem notices_parse_eq_take (source : Source) :
    source.parse.notices =
      (source.lines.flatMap fun line => (parseLine line).notices).take maxDiagnostics :=
  notices_parseLines (Nat.zero_le _) source.lines

/-- However much is wrong with a source, no more is recorded of it than there is room for. -/
theorem length_notices_parse_le (source : Source) :
    source.parse.notices.length ≤ maxDiagnostics :=
  length_notices_parseLines_le (Nat.zero_le _) source.lines

/-- Nothing is noticed about a source exactly if nothing is noticed about any line. -/
theorem notices_parse_eq_nil_iff :
    source.parse.notices = [] ↔ ∀ line ∈ source.lines, (parseLine line).notices = [] := by
  rw [notices_parse_eq_take, List.take_eq_nil_iff, List.flatMap_eq_nil_iff]
  simp [maxDiagnostics]

/-- A source without a notice is parsed to its end. -/
theorem statements_parse (hparsed : source.parse.notices = []) :
    source.parse.statements = source.lines.flatMap fun line => (parseLine line).statements := by
  obtain ⟨read, -, hstatements, hall⟩ :=
    @exists_read_parseLines [] [] source.lines
  have hlength : source.parse.notices.length < maxDiagnostics := by
    rw [hparsed]
    decide
  rw [parse, hstatements, hall hlength]
  rfl

/-- Every statement is that of a line. -/
theorem exists_line_of_mem_statements {statement : Statement}
    (hmem : statement ∈ source.parse.statements) :
    ∃ line ∈ source.lines, statementOf line.tokens = .ok (some statement) := by
  obtain ⟨read, hread, hstatements, -⟩ := @exists_read_parseLines [] [] source.lines
  rw [parse, hstatements, List.reverse_nil, List.nil_append] at hmem
  obtain ⟨line, hline, hstatement⟩ := List.mem_flatMap.mp hmem
  refine ⟨line, hread.mem hline, ?_⟩
  unfold parseLine at hstatement
  split at hstatement
  next found hfound =>
    obtain rfl : found = some statement := by simpa using hstatement
    exact hfound
  next => cases hstatement

end Source

end Octet
