import Octet.Command
import Octet.Proofs.Host.Resumption
import Octet.Proofs.Machine.Tracing
import Octet.Proofs.Recognition

/-! # The input of the command

A program that the command runs reads the given files one after the other, in the order
in which the command line names them, and then the standard input. The command starts
with a console that reads the standard input and puts the files on top of it, the last
one first; each of them is delivered before what was there, empty files included.
Neither the program nor the trace has a way to the input but by reading, so each byte is
read once, and the end of the input is reported when all of them have been.
-/

namespace Octet

/-! ### The answers to reads -/

/-- A host and the answers that it has given to reads, in order and as a machine takes them. -/
abbrev Noted (σ : Type) := List (Reply UInt8) × σ

/-- The device that notes the answers of another one to reads. -/
def Device.noting {σ : Type} (device : Device σ) : Device (Noted σ) where
  read := fun (answers, host) =>
    let (reply, host) := device.read host
    (reply, (answers ++ [Machine.inputReply reply], host))
  write := fun channel text (answers, host) =>
    let (reply, host) := device.write channel text host
    (reply, (answers, host))

/-- Noting the answers does not bear on what a host does. -/
theorem Device.noting_shows {σ : Type} (device : Device σ) :
    device.noting.Shows device Prod.snd :=
  ⟨fun _ => rfl, fun _ _ _ => rfl⟩

/-- The answers to reading an input to its end. -/
def allAnswers (input : List UInt8) : List (Reply UInt8) :=
  input.map .ok ++ [.refused (.cause .endOfInput)]

/-- An input instruction was told of the end of the input. -/
def Ending.Starves (ending : Ending) : Prop :=
  ∃ pc, ending = .failed (.runtime pc Opcode.input.toByte (.cause .endOfInput))

/-- The answers so far are the first bytes of the input, and the host is to deliver the others. -/
def Feeds (input : List UInt8) (state : Noted Host) : Prop :=
  ∃ done left, input = done ++ left ∧ state.1 = done.map .ok ∧ state.2.Delivers left

namespace Feeds

variable {input : List UInt8} {state after : Noted Host}

/-- A read gives the next byte of the input, or its end after the last one. -/
theorem read (hfeeds : Feeds input state) :
    (∃ byte, Machine.inputReply (Host.device.noting.read state).1 = .ok byte ∧
      Feeds input (Host.device.noting.read state).2) ∨
    (Machine.inputReply (Host.device.noting.read state).1 = .refused (.cause .endOfInput) ∧
      (Host.device.noting.read state).2.1 = allAnswers input) := by
  obtain ⟨answers, host⟩ := state
  obtain ⟨done, left, rfl, rfl, hdelivers⟩ := hfeeds
  cases left with
  | nil =>
      obtain ⟨hreply, -⟩ := Host.delivers_nil_iff.mp hdelivers
      refine .inr ⟨hreply, ?_⟩
      simp only [Device.noting, Host.device, hreply, allAnswers, List.append_nil]
  | cons byte left =>
      obtain ⟨hreply, hrest⟩ := Host.delivers_cons_iff.mp hdelivers
      refine .inl ⟨byte, hreply, done ++ [byte], left, by simp, ?_, hrest⟩
      simp only [Device.noting, Host.device, hreply, List.map_append, List.map_singleton]

/-- A text takes nothing from the input. -/
theorem write (hfeeds : Feeds input state) (channel : Channel) (text : List UInt8) :
    Feeds input (Host.device.noting.write channel text state).2 := by
  obtain ⟨done, left, hinput, hanswers, hdelivers⟩ := hfeeds
  exact ⟨done, left, hinput, hanswers, hdelivers.write channel text⟩

/-- An instruction leaves the input as it is or takes a byte of it, unless it is told of its end. -/
theorem attempt (hfeeds : Feeds input state) {machine : Machine}
    {result : Except Interruption Machine}
    (hattempt : machine.attempt Host.device.noting state = (result, after)) :
    Feeds input after ∨ (result = .error (.fault (.cause .endOfInput)) ∧
      machine.operandByte 0 = Opcode.input.toByte ∧ after.1 = allAnswers input) := by
  cases hdecode : machine.decode with
  | error interruption =>
      simp only [Machine.attempt, hdecode, Prod.mk.injEq] at hattempt
      exact .inl (hattempt.2 ▸ hfeeds)
  | ok opcode =>
      rw [Machine.attempt_of_decode _ hdecode] at hattempt
      cases opcode with
      | input =>
          simp only [Machine.intent, Intent.perform, Machine.askByte] at hattempt
          obtain ⟨hresult, hafter⟩ := Prod.mk.inj hattempt
          rcases hfeeds.read with ⟨byte, -, hfed⟩ | ⟨hreply, hall⟩
          · exact .inl (hafter ▸ hfed)
          · rw [hreply] at hresult
            exact .inr ⟨hresult.symm,
              (toByte_of_ofByte? (Machine.decode_iff.mp hdecode).2.1).symm, hafter ▸ hall⟩
      | write channel style mode =>
          exact .inl ((Prod.mk.inj hattempt).2 ▸ hfeeds.write channel _)
      | nop | halt | binary | unary | push | pop | peek | drop | compare | branch =>
          exact .inl ((Prod.mk.inj hattempt).2 ▸ hfeeds)

/-- The end of the input is not among the answers as long as there are bytes to come. -/
theorem not_mem (hfeeds : Feeds input state) (failure : Failure) : .refused failure ∉ state.1 := by
  obtain ⟨done, left, -, hanswers, -⟩ := hfeeds
  simp [hanswers]

/-- The end of the input is reported only after it has been answered to a read. -/
theorem not_starves (hfeeds : Feeds input after) {machine : Machine} {interruption : Interruption}
    (hrunning : machine.finished = false)
    (hattempt : machine.attempt Host.device.noting state = (.error interruption, after)) :
    ¬ (machine.endingOf (machine.operandByte 0) interruption).Starves := by
  rintro ⟨pc, hending⟩
  obtain ⟨hreply, hafter⟩ := Prod.mk.inj (Machine.askByte_of_endOfInput hrunning hattempt hending)
  -- the refusal that was noted last would be one of the bytes
  apply hfeeds.not_mem (.cause .endOfInput)
  rw [← hafter, ← hreply]
  exact List.mem_append_right _ (List.mem_singleton_self _)

end Feeds

/-! ### Runs -/

/-- What a run has read: some of the input, or all of it and then its end, which it reports. -/
inductive Fed (input : List UInt8) : RunResult (Noted Host) → Prop
  | partly {result : RunResult (Noted Host)} (hending : ¬ result.ending.Starves)
      (hfeeds : Feeds input result.host) : Fed input result
  | wholly {result : RunResult (Noted Host)} (hending : result.ending.Starves)
      (hanswers : result.host.1 = allAnswers input) : Fed input result

theorem not_starves_returned : ¬ Ending.returned.Starves := by
  simp [Ending.Starves]

theorem not_starves_outOfFuel : ¬ Ending.outOfFuel.Starves := by
  simp [Ending.Starves]

namespace Fed

variable {input : List UInt8} {result : RunResult (Noted Host)}

/-- A run that returns has not met the end of the input. -/
theorem feeds_of_returned (hfed : Fed input result) (hreturned : result.ending = .returned) :
    Feeds input result.host := by
  cases hfed with
  | partly _ hfeeds => exact hfeeds
  | wholly hending _ =>
      rw [hreturned] at hending
      exact absurd hending not_starves_returned

theorem orOutOfFuel (hfed : Fed input result) : Fed input result.orOutOfFuel := by
  unfold RunResult.orOutOfFuel
  split
  next hcut => exact .partly not_starves_outOfFuel (hfed.feeds_of_returned hcut.1)
  next => exact hfed

/-- The answers are the first ones to reading the input, and all of them just if its end is
reported. -/
theorem answers (hfed : Fed input result) :
    result.host.1 <+: allAnswers input ∧
      (result.ending.Starves ↔ result.host.1 = allAnswers input) := by
  cases hfed with
  | wholly hending hanswers =>
      rw [hanswers]
      exact ⟨List.prefix_rfl, iff_of_true hending rfl⟩
  | partly hending hfeeds =>
      have hmissing := hfeeds.not_mem (.cause .endOfInput)
      obtain ⟨done, left, rfl, hanswers, -⟩ := hfeeds
      refine ⟨?_, iff_of_false hending fun hall => hmissing ?_⟩
      · rw [hanswers, allAnswers, List.map_append, List.append_assoc]
        exact List.prefix_append _ _
      · rw [hall, allAnswers]
        exact List.mem_append_right _ (List.mem_singleton_self _)

end Fed

namespace Machine

variable {input : List UInt8} {machine : Machine} {state : Noted Host}
  {result : RunResult (Noted Host)}

/-- A run reads the input byte by byte, in order. -/
theorem Runs.fed {count : Nat} (hruns : Runs Host.device.noting count machine state result)
    (hfeeds : Feeds input state) : Fed input result := by
  induction hruns with
  | stopped | finished => exact .partly not_starves_returned hfeeds
  | @interrupted machine state after interruption count hrunning hattempt =>
      rcases hfeeds.attempt hattempt with hfed | ⟨herror, hcode, hall⟩
      · exact .partly (hfed.not_starves hrunning hattempt) hfed
      · obtain rfl := Except.error.inj herror
        exact .wholly ⟨machine.pc, by rw [endingOf, hcode]⟩ hall
  | completed hrunning hattempt hrest ih =>
      rcases hfeeds.attempt hattempt with hfed | ⟨herror, -⟩
      · exact ih hfed
      · cases herror

/-- So does a run with any limit. -/
theorem run_fed (fuel : Nat) (limit : Int) (machine : Machine) (hfeeds : Feeds input state) :
    Fed input (machine.run Host.device.noting fuel limit state) := by
  by_cases hlimit : 0 < limit
  · rw [run_of_pos hlimit]
    exact (runs_runSteps _ _ machine state).fed hfeeds
  · rw [run_of_nonpos hlimit]
    exact ((runs_runSteps _ _ machine state).fed hfeeds).orOutOfFuel

/-- Each slice takes the input from where the one before it has left it. -/
theorem runSlices_fed {before : Machine → Noted Host → Noted Host}
    (hbefore : ∀ machine state, Feeds input state → Feeds input (before machine state))
    (fuel : Nat) (limit : Int) (slices : Nat) (machine : Machine) (hfeeds : Feeds input state) :
    Fed input (machine.runSlices Host.device.noting before fuel limit slices state) := by
  induction slices generalizing machine state with
  | zero =>
      refine .partly ?_ hfeeds
      rw [runSlices]
      split
      next => exact not_starves_returned
      next => exact not_starves_outOfFuel
  | succ slices ih =>
      cases hfinished : machine.finished with
      | true =>
          rw [runSlices_of_finished hfinished]
          exact .partly not_starves_returned hfeeds
      | false =>
          have hslice := run_fed fuel limit machine (hbefore machine state hfeeds)
          rcases hrun : machine.run Host.device.noting fuel limit (before machine state) with
            ⟨ending, next, after⟩
          rw [hrun] at hslice
          by_cases hreturned : ending = .returned
          · -- a slice that returns has not met the end of the input
            rw [hreturned] at hrun
            rw [runSlices_of_returned hfinished hrun]
            exact ih next (hslice.feeds_of_returned hreturned)
          · rw [runSlices_of_ne_returned hfinished (by rw [hrun]; exact hreturned), hrun]
            exact hslice

end Machine

/-! ### Traces -/

section Kept

variable {σ : Type} {writer : Writer σ} {invariant : σ → Prop}

/-- What every write keeps of a target, any number of pieces keeps. -/
theorem Outlet.writeAll_preserves
    (hwriter : ∀ bytes target, invariant target → invariant (writer bytes target).2)
    (pieces : List String) {outlet : Outlet σ} (htarget : invariant outlet.target) :
    invariant (outlet.writeAll writer pieces).target := by
  induction pieces generalizing outlet with
  | nil => exact htarget
  | cons piece pieces ih =>
      apply ih
      match outlet, htarget with
      | .bare target, htarget => exact hwriter _ target htarget
      | .tracked target none, htarget => exact hwriter _ target htarget
      | .tracked target (some failure), htarget => exact htarget

/-- What every write keeps of a target, announcing an instruction keeps. -/
theorem Machine.traceLine_preserves
    (hwriter : ∀ bytes target, invariant target → invariant (writer bytes target).2)
    (machine : Machine) {target : σ} (htarget : invariant target) :
    invariant (traceLine writer machine target) := by
  simp only [traceLine, disassembleTo?]
  apply hwriter
  cases disassembleAt? machine.program.code machine.pc with
  | none => exact hwriter _ target htarget
  | some line =>
      apply Outlet.writeAll_preserves hwriter
      exact hwriter _ target htarget

end Kept

theorem Device.writer_snd {σ : Type} (device : Device σ) (channel : Channel) (bytes : List UInt8)
    (host : σ) : (device.writer channel bytes host).2 = (device.write channel bytes host).2 := by
  unfold Device.writer
  split
  all_goals
    next hwrite => rw [hwrite]

/-- Announcing an instruction takes nothing from the input. -/
theorem Feeds.traceLine {input : List UInt8} {state : Noted Host}
    (hfeeds : Feeds input state) (machine : Machine) :
    Feeds input (Machine.traceLine (Host.device.writer .error).beside machine state) := by
  refine machine.traceLine_preserves (fun bytes target hfeeds => ?_) hfeeds
  obtain ⟨done, left, hinput, hanswers, hdelivers⟩ := hfeeds
  refine ⟨done, left, hinput, hanswers, ?_⟩
  simp only [Writer.beside, Device.writer_snd]
  exact hdelivers.write .error bytes

namespace Command

/-! ### The stack of the command -/

/-- The files can be read and hold the given bytes. -/
def Holds (storage : Storage) (files : List String) (contents : List (List UInt8)) : Prop :=
  List.Forall₂ (fun file content => storage.read file = .ok content) files contents

/-- The input of a host is a stack of readers, and the host delivers the given bytes. -/
def Stacked (host : Host) (bytes : List UInt8) : Prop :=
  (∃ readers, host.input = .stack readers) ∧ host.Delivers bytes

/-- What is put on top of the stack is delivered before what the stack delivers. -/
theorem Stacked.pushReader {host : Host} {rest : List UInt8} (hstacked : Stacked host rest)
    {inlet : Inlet} (hending : inlet.supply.ending = .cause .endOfFile) :
    Stacked (host.pushReader (some inlet)) (inlet.supply.bytes ++ rest) := by
  obtain ⟨⟨readers, hstack⟩, hdelivers⟩ := hstacked
  refine ⟨⟨inlet :: readers, ?_⟩, hdelivers.pushReader_stack hstack hending⟩
  simp only [Host.pushReader, hstack]
  rfl

/-- The console delivers the standard input. -/
theorem stacked_consoleHost (standardInput : List UInt8) :
    Stacked (consoleHost standardInput) standardInput := by
  have hbytes : (standardConsole standardInput).supply.bytes = standardInput :=
    Reader.bytes_ofBytes standardInput none
  have hending : (standardConsole standardInput).supply.ending = .cause .endOfFile := rfl
  have hnone := Host.delivers_withReaders_nil (consoleHost standardInput)
  have hdelivers := hnone.withReaders_cons hending
  rw [hbytes, List.append_nil] at hdelivers
  exact ⟨⟨_, rfl⟩, hdelivers⟩

/-- Opening a file that can be read puts its bytes before those that a host delivers. -/
theorem exists_stacked_pushFile {storage : Storage} {file : String} {content rest : List UInt8}
    (hread : storage.read file = .ok content) {host : Host} (hstacked : Stacked host rest) :
    ∃ next, pushFile storage host file = .ok next ∧ Stacked next (content ++ rest) := by
  let reader : Inlet := .reader (.ofBytes content none)
  have hbytes : reader.supply.bytes = content := Reader.bytes_ofBytes content none
  have hending : reader.supply.ending = .cause .endOfFile := rfl
  refine ⟨host.pushReader (some reader), ?_, hbytes ▸ hstacked.pushReader hending⟩
  simp only [pushFile, openReader, hread]
  rfl

/-- The first file is put on top of the host of the others. -/
theorem hostOf_cons (storage : Storage) (file : String) (files : List String)
    (standardInput : List UInt8) :
    hostOf storage (file :: files) standardInput =
      hostOf storage files standardInput >>= (pushFile storage · file) := by
  simp [hostOf]

/-- The host of a program delivers the files in their order and then the standard input. -/
theorem exists_stacked_hostOf {storage : Storage} {files : List String}
    {contents : List (List UInt8)} (hfiles : Holds storage files contents)
    (standardInput : List UInt8) :
    ∃ host, hostOf storage files standardInput = .ok host ∧
      Stacked host (contents.flatten ++ standardInput) := by
  induction hfiles with
  | nil => exact ⟨_, rfl, stacked_consoleHost standardInput⟩
  | cons hread _ ih =>
      obtain ⟨host, hhost, hstacked⟩ := ih
      obtain ⟨next, hnext, hdelivers⟩ := exists_stacked_pushFile hread hstacked
      refine ⟨next, ?_, ?_⟩
      · rw [hostOf_cons, hhost]
        exact hnext
      · rw [List.flatten_cons, List.append_assoc]
        exact hdelivers

/-! ### The whole command -/

/-- Runs a machine to its end as the command does, and notes the answers to its reads. -/
def executeNoting (fuel : Nat) (settings : Settings) (machine : Machine)
    (state : Noted Host) : RunResult (Noted Host) :=
  if settings.trace then
    machine.runTraced Host.device.noting (Host.device.writer .error).beside fuel state
  else machine.runToEnd Host.device.noting fuel settings.steps state

section Execution

variable (fuel : Nat) (settings : Settings) (machine : Machine)

/-- Noting the answers does not change the run. -/
theorem executeNoting_view (state : Noted Host) :
    (executeNoting fuel settings machine state).view Prod.snd =
      execute fuel settings machine state.2 := by
  unfold executeNoting execute
  split
  next =>
    refine (Machine.runSlices_view Host.device.noting_shows ?_ fuel 1 fuel machine state).symm
    rintro machine ⟨answers, host⟩
    rw [Machine.traceLine_beside]
  next =>
    exact (Machine.runSlices_view Host.device.noting_shows (fun _ _ => rfl) fuel settings.steps
      fuel machine state).symm

/-- The run of the command reads the input byte by byte, in order, with or without a trace. -/
theorem executeNoting_fed {input : List UInt8} {state : Noted Host}
    (hfeeds : Feeds input state) : Fed input (executeNoting fuel settings machine state) := by
  unfold executeNoting
  split
  next =>
    exact Machine.runSlices_fed (fun machine _ hfeeds => hfeeds.traceLine machine) fuel 1 fuel
      machine hfeeds
  next =>
    exact Machine.runSlices_fed (fun _ _ hfeeds => hfeeds) fuel settings.steps fuel machine hfeeds

end Execution

/-- The command is to run a program on a machine: its arguments name one file, which holds the
program, and the settings allow for the machine. -/
structure Starts (arguments : List String) (storage : Storage) (line : CommandLine)
    (settings : Settings) (program : Cluster) (machine : Machine) : Prop where
  reads : CommandLine.ofArguments switches arguments = .ok line
  configures : settingsOf storage line = .ok settings
  loads : ∃ file, line.operands = [file] ∧
    loadProgram storage settings.registers file = .ok program
  notSaved : line.isOn "c" = false
  notShown : line.isOn "disasm" = false
  makes : Machine.new settings.registers settings.stack [] = .ok machine

/-- What a run leaves behind. -/
def outcomeOf (line : CommandLine) (storage : Storage) (result : RunResult Host) : Outcome :=
  let output := result.host.output.console.reverse.flatten
  let error := result.host.error.console.reverse.flatten
  match endingFailure result.ending with
  | some failure => failed line storage output error (some result.machine) failure
  | none =>
    ⟨0, output ++ (if line.isOn "dump" then stateText result.machine else []), error, storage⟩

section Whole

variable {arguments : List String} {storage : Storage} {line : CommandLine} {settings : Settings}
  {program : Cluster} {machine : Machine}

/-- A command that is to run a program runs it on the host of its files. -/
theorem run_of_starts (hstarts : Starts arguments storage line settings program machine)
    {standardInput : List UInt8} {host : Host}
    (hhost : hostOf storage (line.texts "with") standardInput = .ok host) (fuel : Nat) :
    run fuel arguments storage standardInput = outcomeOf line storage
      (execute fuel settings (machine.load program) host) := by
  obtain ⟨file, hoperands, hprogram⟩ := hstarts.loads
  simp only [run, hstarts.reads, hstarts.configures, hoperands, process, hprogram,
    hstarts.notSaved, hstarts.notShown, Bool.false_eq_true, ↓reduceIte, start, hhost,
    hstarts.makes]
  rfl

/-- The command opens the given files and puts them on top of the console of the standard input.
The answers that the input instructions of the program then get are the bytes of the files in their
order and those of the standard input, as far as the program reads them, and such an instruction
reports the end of the input just if all of them have been read. The run is that of the command,
whatever its settings are. -/
theorem input_in_order (hstarts : Starts arguments storage line settings program machine)
    {contents : List (List UInt8)} (hfiles : Holds storage (line.texts "with") contents)
    (fuel : Nat) (standardInput : List UInt8) :
    ∃ host, hostOf storage (line.texts "with") standardInput = .ok host ∧
      let noted := executeNoting fuel settings (machine.load program) ([], host)
      run fuel arguments storage standardInput = outcomeOf line storage (noted.view Prod.snd) ∧
        noted.view Prod.snd = execute fuel settings (machine.load program) host ∧
        noted.host.1 <+: allAnswers (contents.flatten ++ standardInput) ∧
        (noted.ending.Starves ↔
          noted.host.1 = allAnswers (contents.flatten ++ standardInput)) := by
  obtain ⟨host, hhost, -, hdelivers⟩ := exists_stacked_hostOf hfiles standardInput
  refine ⟨host, hhost, ?_⟩
  intro noted
  have hview : noted.view Prod.snd = execute fuel settings (machine.load program) host :=
    executeNoting_view fuel settings _ ([], host)
  have hstart : Feeds (contents.flatten ++ standardInput) ([], host) :=
    ⟨[], _, rfl, rfl, hdelivers⟩
  refine ⟨?_, hview, (executeNoting_fed fuel settings _ hstart).answers⟩
  rw [hview]
  exact run_of_starts hstarts hhost fuel

end Whole

/-- A source that reads four bytes. -/
def fourReads : List UInt8 := utf8Bytes "in r0\nin r1\nin r2\nin r3"

/-- The source is assembled, since it does not look like a cluster file. -/
theorem loadProgram_fourReads {storage : Storage} (hread : storage.read "p" = .ok fourReads) :
    loadProgram storage 4 "p" = .ok (.ofCode #[41, 0, 41, 1, 41, 2, 41, 3]) := by
  have hassembler : Assembler.Reachable 4 ⟨4, false, .empty, .empty⟩ := .new rfl
  have hcode : ((⟨4, false, .empty, .empty⟩ : Assembler).assemble ""
      (.ofBytes fourReads none)).result.map Cluster.code =
        .ok #[41, 0, 41, 1, 41, 2, 41, 3] := by
    decide +kernel
  obtain ⟨program, hresult, hbytes⟩ := map_eq_ok_iff.mp hcode
  rw [← hbytes, Cluster.ofCode_code]
  exact loadProgram_of_assemble hassembler hresult (by decide +kernel) hread

/-- Three files, of which one is empty, and a byte of standard input are too few for a program that
reads four bytes. -/
theorem input_in_order_of_fourReads :
    let arguments := ["-with", "a", "-trace", "-with", "b", "-with", "c", "p"]
    let storage : Storage := ⟨[], [(["p"], .file fourReads), (["a"], .file [120]),
      (["b"], .file []), (["c"], .file [4])]⟩
    let settings := { Settings.default with trace := true }
    let program := Cluster.ofCode #[41, 0, 41, 1, 41, 2, 41, 3]
    ∃ line machine host, Starts arguments storage line settings program machine ∧
      Holds storage (line.texts "with") [[120], [], [4]] ∧
      hostOf storage (line.texts "with") [121] = .ok host ∧
      (executeNoting 9 settings (machine.load program) ([], host)).host.1 =
        [.ok 120, .ok 4, .ok 121, .refused (.cause .endOfInput)] := by
  intro arguments storage settings program
  let line : CommandLine := ⟨[("with", .text "a"), ("trace", .truth true), ("with", .text "b"),
    ("with", .text "c")], ["p"]⟩
  let machine : Machine := ⟨.empty, 0, #[0, 0, 0, 0], .new 8, .unset, 0⟩
  have hstarts : Starts arguments storage line settings program machine := by
    refine ⟨by decide +kernel, by decide +kernel, ⟨"p", rfl, ?_⟩, rfl, rfl, rfl⟩
    exact loadProgram_fourReads (by decide +kernel)
  have hfiles : Holds storage (line.texts "with") [[120], [], [4]] :=
    .cons (by decide +kernel) (.cons (by decide +kernel) (.cons (by decide +kernel) .nil))
  obtain ⟨host, hhost, -, -, -, hends⟩ := input_in_order hstarts hfiles 9 [121]
  refine ⟨line, machine, host, hstarts, hfiles, hhost, hends.mp ⟨6, ?_⟩⟩
  have hopened : hostOf storage (line.texts "with") [121] = .ok
      (((consoleHost [121]).pushReader (some (Reader.ofBytes [4] none))).pushReader
        (some (Reader.ofBytes [] none)) |>.pushReader (some (Reader.ofBytes [120] none))) := by
    decide +kernel
  obtain rfl := Except.ok.inj (hhost.symm.trans hopened)
  decide +kernel

end Command

end Octet
