import Octet.Proofs.Assembler
import Octet.Proofs.Machine.Calls
import Octet.Proofs.Source.Parsing

/-! # What an assembler reports

A source is either turned into a program or refused with one to ten diagnostics, and
the host hears of each diagnostic once, in order. Nothing is lost on the way: a
source that could not be read to its end is refused, and so is one with a line that
holds something but is no statement. Such a line need not have a notice of its own,
since the one for a token that was flagged is made while the token is read.
-/

namespace Octet

variable {σ : Type}

/-! ### Sending -/

/-- The text that a call sends, and its channel. -/
def HostCall.sent? : HostCall → Option (Channel × List UInt8)
  | read _ => none
  | write channel text _ => some (channel, text)

/-- The call that sends a message. -/
def Message.sent (message : Message) : Option (Channel × List UInt8) :=
  some (message.channel, utf8Bytes message.text)

theorem Device.sendAll_of_returned {device : Device σ} {message : Message} {host next : σ}
    {reply : Reply Unit}
    (hwrite : device.write message.channel (utf8Bytes message.text) host = (reply, next))
    (hreturned : reply.Returned) (rest : List Message) :
    device.sendAll (message :: rest) host = device.sendAll rest next := by
  rw [Device.sendAll, hwrite]
  cases reply with
  | ok value | refused failure => rfl
  | broken failure | brokenText text => cases hreturned

/-- A host that does not break off is sent each message once, in order, whether it takes them or
not. -/
theorem Device.Returns.sendAll {device : Device σ} (hdevice : device.Returns)
    (messages : List Message) (host : σ) (calls : List HostCall) :
    ∃ after sent, device.sendAll messages host = (.ok (), after) ∧
      device.recording.sendAll messages (host, calls) = (.ok (), after, calls ++ sent) ∧
      sent.map HostCall.sent? = messages.map Message.sent := by
  induction messages generalizing host calls with
  | nil => exact ⟨host, [], rfl, by simp [Device.sendAll], rfl⟩
  | cons message rest ih =>
      have hreturned := hdevice.write message.channel (utf8Bytes message.text) host
      obtain ⟨reply, next, hwrite⟩ : ∃ reply next,
          device.write message.channel (utf8Bytes message.text) host = (reply, next) := ⟨_, _, rfl⟩
      rw [hwrite] at hreturned
      let call : HostCall := .write message.channel (utf8Bytes message.text) reply
      have hrecord : device.recording.write message.channel (utf8Bytes message.text) (host, calls) =
          (reply, next, calls ++ [call]) := by
        simp only [Device.recording, hwrite, call]
      obtain ⟨after, sent, hafter, hrecorded, hsent⟩ := ih next (calls ++ [call])
      rw [List.append_assoc] at hrecorded
      refine ⟨after, call :: sent, ?_, ?_, ?_⟩
      · rw [Device.sendAll_of_returned hwrite hreturned, hafter]
      · rw [Device.sendAll_of_returned hrecord hreturned, hrecorded]
        rfl
      · rw [List.map_cons, hsent]
        rfl

/-! ### The limit -/

namespace Emission

variable {emission : Emission}

/-- A statement is only looked at while there is room for a notice, so the one about its label fits
in any case. -/
theorem length_notices_addLabel_le (hopen : emission.stopped = false) (place : Place)
    (label : Option String) :
    (emission.addLabel place label).notices.length ≤ maxDiagnostics := by
  have hroom : emission.notices.length < maxDiagnostics :=
    Notice.enough_eq_false_iff.mp (Bool.or_eq_false_iff.mp hopen).2
  cases label with
  | none => exact Nat.le_of_lt hroom
  | some name =>
      simp only [addLabel]
      split
      next => exact hroom
      next => exact Nat.le_of_lt hroom

/-- The instruction of a statement keeps to the limit, whether it has been reached or not. -/
theorem length_notices_addInstruction_le (registers : Nat)
    (hbound : emission.notices.length ≤ maxDiagnostics) (place : Place)
    (instruction : Instruction) :
    (emission.addInstruction registers place instruction).notices.length ≤ maxDiagnostics := by
  simp only [addInstruction]
  split
  next =>
    split
    next => exact hbound
    next => exact Notice.length_record_le hbound
    next => exact Notice.length_record_le hbound
  next => exact Notice.length_recordAll_le hbound

/-- A statement keeps to the limit. -/
theorem length_notices_addStatement_le (registers : Nat)
    (hbound : emission.notices.length ≤ maxDiagnostics) (statement : Statement) :
    (emission.addStatement registers statement).notices.length ≤ maxDiagnostics := by
  unfold addStatement
  split
  next => exact hbound
  next hstopped =>
    have hopen : emission.stopped = false := by simpa using hstopped
    have hlabelled := length_notices_addLabel_le hopen statement.place statement.label
    split
    next => exact hlabelled
    next => exact length_notices_addInstruction_le registers hlabelled _ _

/-- Any number of statements keeps to the limit. -/
theorem length_notices_foldl_le (registers : Nat) (statements : List Statement)
    (hbound : emission.notices.length ≤ maxDiagnostics) :
    (statements.foldl (addStatement registers) emission).notices.length ≤ maxDiagnostics := by
  induction statements generalizing emission with
  | nil => exact hbound
  | cons statement statements ih =>
      exact ih (length_notices_addStatement_le registers hbound statement)

/-- A branch target that is filled in keeps to the limit. -/
theorem length_notices_resolve_le {labels : LabelTable} {done : Builder × List Notice}
    (hbound : done.2.length ≤ maxDiagnostics) (use : LabelUse) :
    (resolve labels done use).2.length ≤ maxDiagnostics := by
  simp only [resolve]
  split
  next => exact Notice.length_record_le hbound
  next =>
    split
    next => exact hbound
    next => exact Notice.length_record_le hbound
    next => exact Notice.length_record_le hbound

/-- The branch targets that were left open keep to the limit. -/
theorem length_notices_resolve_foldl_le {labels : LabelTable} (uses : List LabelUse)
    {done : Builder × List Notice} (hbound : done.2.length ≤ maxDiagnostics) :
    (uses.foldl (resolve labels) done).2.length ≤ maxDiagnostics := by
  induction uses generalizing done with
  | nil => exact hbound
  | cons use uses ih => exact ih (length_notices_resolve_le hbound use)

end Emission

/-- However much is wrong with statements, no more is recorded than there is room for. -/
theorem length_notices_emitStatements_le (registers : Nat) (statements : List Statement)
    (builder : Builder) (labels : LabelTable) :
    (emitStatements registers statements builder labels).notices.length ≤ maxDiagnostics := by
  have hbound := Emission.length_notices_foldl_le registers statements
    (show (Emission.mk builder labels [] false).notices.length ≤ maxDiagnostics from Nat.zero_le _)
  simp only [emitStatements]
  split
  next => exact Emission.length_notices_resolve_foldl_le _ hbound
  next => exact hbound

/-! ### Assembling -/

/-- What an assembler records about a source. Statements are emitted only if they could all be
parsed. -/
def Assembler.recorded (assembler : Assembler) (source : Source) : List Notice :=
  if source.parse.notices = [] then
    (emitStatements assembler.registers source.parse.statements assembler.builder
      assembler.labels).notices.reverse
  else source.parse.notices

/-- Nothing is recorded exactly if there is no notice about the lines, nor about the statements. -/
theorem Assembler.recorded_eq_nil_iff {assembler : Assembler} {source : Source} :
    assembler.recorded source = [] ↔ source.parse.notices = [] ∧
      (emitStatements assembler.registers source.parse.statements assembler.builder
        assembler.labels).notices = [] := by
  unfold recorded
  split
  next hparsed => rw [List.reverse_eq_nil_iff, and_iff_right hparsed]
  next hparsed => exact iff_of_false hparsed fun hboth => hparsed hboth.1

/-- What is recorded keeps to the limit. -/
theorem Assembler.length_recorded_le (assembler : Assembler) (source : Source) :
    (assembler.recorded source).length ≤ maxDiagnostics := by
  unfold recorded
  split
  next =>
    rw [List.length_reverse]
    exact length_notices_emitStatements_le _ _ _ _
  next => exact source.length_notices_parse_le

/-- A source about which nothing is recorded is turned into a program. Any other gives diagnostics:
all that is recorded, as it is. They are the messages. -/
theorem Assembler.assemble_cases (assembler : Assembler) (name : String) (source : Source) :
    (∃ cluster, (assembler.assemble name source).result = .ok cluster ∧
      assembler.recorded source = [] ∧
      (assembler.assemble name source).messages =
        if assembler.verbose then [summary name cluster] else []) ∨
    ∃ diagnostics, (assembler.assemble name source).result = .error diagnostics ∧
      assembler.recorded source ≠ [] ∧
      diagnostics = (assembler.recorded source).map
        (fun notice => ⟨name, notice.place, notice.problem⟩) ∧
      (assembler.assemble name source).messages =
        diagnostics.map fun diagnostic => ⟨.error, diagnostic.text ++ "\n"⟩ := by
  obtain ⟨registers, verbose, builder, labels⟩ := assembler
  have hempty (notices : List Notice) (report : Notice → Diagnostic) :
      (notices.map report).isEmpty = true ↔ notices = [] := by
    rw [List.isEmpty_iff, List.map_eq_nil_iff]
  simp only [assemble, recorded]
  by_cases hparsed : source.parse.notices = []
  · simp only [hparsed, List.isEmpty_nil, ↓reduceIte]
    split
    next hnone => exact .inl ⟨_, rfl, (hempty _ _).mp hnone, rfl⟩
    next hsome => exact .inr ⟨_, rfl, fun hnone => hsome ((hempty _ _).mpr hnone), rfl, rfl⟩
  · have hnot : ¬ source.parse.notices.isEmpty = true := by rwa [List.isEmpty_iff]
    simp only [if_neg hnot, if_neg hparsed, List.reverse_reverse]
    split
    next hnone => exact absurd ((hempty _ _).mp hnone) hparsed
    next => exact .inr ⟨_, rfl, hparsed, rfl, rfl⟩

/-- Whatever the source and the host that is told of it, as long as the host does not break off:
either there is a program, nothing was noticed about the source, and the host was sent a summary if
one was asked for and nothing else; or something was noticed, all that was recorded of it makes one
to ten diagnostics, and the host was sent each of them on the error channel, in order. There are
diagnostics if the source could not be read to its end, and if a line of it holds something but
gives no statement. -/
theorem assembleOn_protocol {device : Device σ} (hdevice : device.Returns) (assembler : Assembler)
    (name : String) (source : Source) (host : σ) :
    let outcome := assembler.assembleOn device name source host
    let recorded := assembler.assembleOn device.recording name source (host, [])
    (recorded.result = outcome.result ∧ recorded.host.1 = outcome.host) ∧
    ((∃ cluster, outcome.result = .ok (.ok cluster) ∧
        source.parse.notices = [] ∧
        (emitStatements assembler.registers source.parse.statements assembler.builder
          assembler.labels).notices = [] ∧
        recorded.host.2.map HostCall.sent? =
          if assembler.verbose then
            [some (.output, utf8Bytes (name ++ ": " ++ toString cluster.count ++
              " instructions, " ++ toString cluster.size ++ " bytes\n"))]
          else []) ∨
      ∃ diagnostics, outcome.result = .ok (.error diagnostics) ∧
        (source.parse.notices ≠ [] ∨
          (emitStatements assembler.registers source.parse.statements assembler.builder
            assembler.labels).notices ≠ []) ∧
        diagnostics = (assembler.recorded source).map
          (fun notice => ⟨name, notice.place, notice.problem⟩) ∧
        1 ≤ diagnostics.length ∧ diagnostics.length ≤ 10 ∧
        recorded.host.2.map HostCall.sent? =
          diagnostics.map fun diagnostic =>
            some (.error, utf8Bytes (diagnostic.text ++ "\n"))) ∧
    (source.failure ≠ none ∨
        (∃ line ∈ source.lines, line.tokens ≠ [] ∧ (parseLine line).statements = []) →
      ∃ diagnostics, outcome.result = .ok (.error diagnostics)) := by
  intro outcome recorded
  obtain ⟨after, sent, hafter, hrecorded, hsent⟩ :=
    hdevice.sendAll (assembler.assemble name source).messages host []
  have houtcome : outcome =
      ⟨.ok (assembler.assemble name source).result, (assembler.assemble name source).assembler,
        after⟩ := by
    simp only [outcome, Assembler.assembleOn, hafter]
    rfl
  have hrecords : recorded =
      ⟨.ok (assembler.assemble name source).result, (assembler.assemble name source).assembler,
        after, sent⟩ := by
    simp only [recorded, Assembler.assembleOn, hrecorded]
    rfl
  rw [houtcome, hrecords]
  simp only [hsent, and_self, true_and]
  rcases assembler.assemble_cases name source with
    ⟨cluster, hresult, hnone, hmessages⟩ | ⟨diagnostics, hresult, hsome, hreports, hmessages⟩
  · obtain ⟨hparsed, hemitted⟩ := Assembler.recorded_eq_nil_iff.mp hnone
    rw [hresult, hmessages]
    refine ⟨.inl ⟨cluster, rfl, hparsed, hemitted, ?_⟩, ?_⟩
    · cases assembler.verbose <;> rfl
    · obtain ⟨hread, hlines⟩ := Source.complete_of_parse hparsed
      rintro (hfailure | ⟨line, hline, htokens, hnone⟩)
      · exact absurd hread hfailure
      · exact absurd hnone (hlines line hline htokens)
  · have hnoticed := fun hboth => hsome (Assembler.recorded_eq_nil_iff.mpr hboth)
    have hlength : diagnostics.length = (assembler.recorded source).length := by
      rw [hreports, List.length_map]
    rw [hresult, hmessages]
    refine ⟨.inr ⟨diagnostics, rfl, not_and_or.mp hnoticed, hreports, ?_, ?_, ?_⟩,
      fun _ => ⟨diagnostics, rfl⟩⟩
    · rw [hlength]
      exact List.length_pos_iff.mpr hsome
    · rw [hlength]
      exact assembler.length_recorded_le source
    · rw [List.map_map]
      rfl

/-- A source that breaks off is refused, although what was read of it is in order. -/
theorem assembleOn_protocol_of_cut_source :
    let source := Source.ofBytes (utf8Bytes "nop") (some "input/output error")
    ∃ diagnostics, ((⟨4, true, .empty, .empty⟩ : Assembler).assembleOn Device.keeping "nop.s" source
        []).result = .ok (.error diagnostics) ∧ 1 ≤ diagnostics.length := by
  intro source
  obtain ⟨-, hcases, hfailed⟩ := assembleOn_protocol Device.keeping_returns
    ⟨4, true, .empty, .empty⟩ "nop.s" source []
  obtain ⟨diagnostics, hresult⟩ := hfailed (.inl (by decide))
  rcases hcases with ⟨cluster, hprogram, -⟩ | ⟨reported, hreported, -, -, hpos, -⟩
  · cases hprogram.symm.trans hresult
  · exact ⟨reported, hreported, hpos⟩

end Octet
