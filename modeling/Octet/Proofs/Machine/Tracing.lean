import Octet.Proofs.Listing
import Octet.Proofs.Machine.Slicing

/-! # Watching a run

A traced run announces every instruction before it is attempted. What it writes to goes
its own way beside the host, so the run is the same as without the trace, and also when
the writing fails. The trace of a run is the list of the machines before each of its
attempts, shown line by line.
-/

namespace Octet

variable {σ τ : Type}

/-! ### Writing beside a host -/

/-- An outlet whose target stands beside a host. -/
def Outlet.beside (host : σ) : Outlet τ → Outlet (σ × τ)
  | bare target => bare (host, target)
  | tracked target failure => tracked (host, target) failure

theorem Outlet.write_beside (writer : Writer τ) (bytes : List UInt8) (host : σ)
    (outlet : Outlet τ) :
    (outlet.beside host).write writer.beside bytes =
      ((outlet.write writer bytes).1, (outlet.write writer bytes).2.beside host) := by
  match outlet with
  | bare target => rfl
  | tracked target none => rfl
  | tracked target (some failure) => rfl

/-- Writing any number of pieces to one of two targets does not touch the other. -/
theorem Outlet.writeAll_beside (writer : Writer τ) (pieces : List String) (host : σ)
    (outlet : Outlet τ) :
    (outlet.beside host).writeAll writer.beside pieces =
      (outlet.writeAll writer pieces).beside host := by
  induction pieces generalizing outlet with
  | nil => rfl
  | cons piece pieces ih =>
      simp only [writeAll, List.foldl_cons, write_beside] at ih ⊢
      exact ih _

theorem Outlet.target_beside (host : σ) (outlet : Outlet τ) :
    (outlet.beside host).target = (host, outlet.target) := by
  cases outlet <;> rfl

namespace Machine

/-- The line that announces an instruction does not reach the host. -/
theorem traceLine_beside (writer : Writer τ) (machine : Machine) (host : σ) (target : τ) :
    traceLine writer.beside machine (host, target) = (host, traceLine writer machine target) := by
  simp only [traceLine, disassembleTo?]
  cases disassembleAt? machine.program.code machine.pc with
  | none => rfl
  | some line =>
      have hwritten := Outlet.writeAll_beside writer line.1 host
        (.tracked (writer (utf8Bytes (offsetColumn machine.pc)) target).2 none)
      have htarget := (congrArg Outlet.target hwritten).trans (Outlet.target_beside _ _)
      exact congrArg (fun state => ((writer.beside : Writer (σ × τ)) (utf8Bytes "\n") state).2)
        htarget

/-- A writer that takes every write is given the line of the instruction. -/
theorem traceLine_of_keeps {writer : Writer τ} {text : τ → List UInt8} (hkeeps : writer.Keeps text)
    (machine : Machine) (target : τ) :
    text (traceLine writer machine target) =
      text target ++ utf8Bytes (lineAt machine.program.code machine.pc ++ "\n") := by
  have hoffset := hkeeps.append (utf8Bytes (offsetColumn machine.pc)) target
  have hline : utf8Bytes (lineAt machine.program.code machine.pc ++ "\n") =
      utf8Bytes (offsetColumn machine.pc) ++
        ((piecesAt machine.program.code machine.pc).flatMap utf8Bytes ++ utf8Bytes "\n") := by
    rw [← join_linePieces, utf8Bytes_join]
    simp [linePieces]
  simp only [traceLine, disassembleTo?]
  rw [hkeeps.append, hline]
  cases hshown : disassembleAt? machine.program.code machine.pc with
  | none => simp [piecesAt, hshown, hoffset]
  | some line =>
      obtain ⟨-, htext⟩ := Outlet.writeAll_bare_of_keeps hkeeps line.1
        (writer (utf8Bytes (offsetColumn machine.pc)) target).2
      simp only [Option.map_some, htext, piecesAt, hshown, Option.elim_some, hoffset,
        List.append_assoc]

/-! ### Attempts -/

/-- The number of instructions that a run has attempted: those it has executed, and the one that
was interrupted. -/
def attempted (machine : Machine) (result : RunResult σ) : Nat :=
  result.machine.executed - machine.executed +
    if result.ending = .returned ∨ result.ending = .outOfFuel then 0 else 1

/-- The machines before each attempt of a run. -/
def attempts (device : Device σ) (machine : Machine) (host : σ) (result : RunResult σ) :
    List Machine :=
  (List.range (machine.attempted result)).map fun completed =>
    (machine.runSteps device completed host).machine

theorem endingOf_ne_outOfFuel (machine : Machine) (opcode : UInt8) (interruption : Interruption) :
    machine.endingOf opcode interruption ≠ .outOfFuel := by
  cases interruption <;> simp [endingOf]

/-- Fuel that has run out is no attempt. -/
theorem attempted_of_orOutOfFuel {result : RunResult σ} {other : RunResult τ}
    (hending : other.ending = result.orOutOfFuel.ending) (hmachine : other.machine = result.machine)
    (machine : Machine) : machine.attempted other = machine.attempted result := by
  unfold RunResult.orOutOfFuel at hending
  split at hending
  next hcut => simp [attempted, hending, hmachine, hcut.1]
  next => simp [attempted, hending, hmachine]

section Attempts

variable {device : Device σ} {machine next : Machine} {host after : σ}

theorem attempted_of_returned (machine : Machine) (host : σ) :
    machine.attempted (⟨.returned, machine, host⟩ : RunResult σ) = 0 := by
  simp [attempted]

theorem attempted_of_interrupted (machine : Machine) (interruption : Interruption) (after : σ) :
    machine.attempted
      ⟨machine.endingOf (machine.operandByte 0) interruption, machine, after⟩ = 1 := by
  simp [attempted, endingOf_ne_returned, endingOf_ne_outOfFuel]

theorem attempted_of_completed {result : RunResult σ}
    (hattempt : machine.attempt device host = (.ok next, after))
    (hle : next.executed ≤ result.machine.executed) :
    machine.attempted result = next.attempted result + 1 := by
  have hexecuted := (succeeds_of_attempt hattempt).executed
  unfold attempted
  omega

/-- The machines that attempt an instruction are the first one and those of the rest of the run. -/
theorem attempts_of_completed {result : RunResult σ} (hrunning : machine.finished = false)
    (hattempt : machine.attempt device host = (.ok next, after))
    (hle : next.executed ≤ result.machine.executed) :
    machine.attempts device host result = machine :: next.attempts device after result := by
  simp only [attempts, attempted_of_completed hattempt hle, List.range_succ_eq_map, List.map_cons,
    List.map_map]
  refine congrArg₂ _ rfl (List.map_congr_left fun completed _ => ?_)
  exact congrArg RunResult.machine (runSteps_of_completed hrunning hattempt completed)

end Attempts

/-- Before each attempt of a run, the instructions so far have been completed and the program has
not ended. -/
theorem Runs.of_lt_attempted {device : Device σ} {count : Nat} {machine : Machine} {host : σ}
    {result : RunResult σ} (hruns : Runs device count machine host result) {completed : Nat}
    (hlt : completed < machine.attempted result) :
    let before := machine.runSteps device completed host
    before.ending = .returned ∧ before.machine.finished = false ∧
      before.machine.executed = machine.executed + completed := by
  induction hruns generalizing completed with
  | stopped | finished => simp [attempted_of_returned] at hlt
  | interrupted count hrunning hattempt =>
      rw [attempted_of_interrupted] at hlt
      obtain rfl : completed = 0 := by omega
      exact ⟨rfl, hrunning, rfl⟩
  | completed hrunning hattempt hrest ih =>
      rw [attempted_of_completed hattempt hrest.executed.1] at hlt
      have hexecuted := (succeeds_of_attempt hattempt).executed
      cases completed with
      | zero => exact ⟨rfl, hrunning, rfl⟩
      | succ completed =>
          obtain ⟨hreturned, hbefore, hcount⟩ := ih (Nat.lt_of_succ_lt_succ hlt)
          rw [runSteps_of_completed hrunning hattempt]
          exact ⟨hreturned, hbefore, by omega⟩

/-- What is noted beside a run before each single instruction does not change the run, and is noted
of the machines before each attempt. -/
theorem Runs.runSlices_beside {device : Device σ} {slices : Nat} {machine : Machine} {host : σ}
    {result : RunResult σ} (hruns : Runs device slices machine host result)
    {before : Machine → σ × τ → σ × τ} {note : Machine → τ → τ}
    (hbefore : ∀ machine host other, before machine (host, other) = (host, note machine other))
    (fuel : Nat) (other : τ) :
    machine.runSlices device.beside before fuel 1 slices (host, other) =
      ⟨result.orOutOfFuel.ending, result.machine, (result.host,
        (machine.attempts device host result).foldl (fun other attempt => note attempt other)
          other)⟩ := by
  induction hruns generalizing other with
  | stopped machine host =>
      simp only [runSlices, attempts, attempted_of_returned, RunResult.orOutOfFuel]
      cases machine.finished <;> rfl
  | finished count host hfinished =>
      rw [runSlices_of_finished hfinished]
      simp [attempts, attempted_of_returned, RunResult.orOutOfFuel, hfinished]
  | @interrupted machine host after interruption count hrunning hattempt =>
      have hreturned := machine.endingOf_ne_returned (machine.operandByte 0) interruption
      have hrun := run_view (device.beside_shows (note machine other)) fuel 1 machine host
      rw [run_one_of_interrupted hrunning hattempt, ← hbefore] at hrun
      rw [runSlices_of_ne_returned hrunning (by rw [hrun]; exact hreturned), hrun]
      simp [RunResult.view, RunResult.orOutOfFuel, hreturned, attempts, attempted_of_interrupted,
        runSteps]
  | @completed machine next host after count result hrunning hattempt hrest ih =>
      have hrun := run_view (device.beside_shows (note machine other)) fuel 1 machine host
      rw [run_one_of_completed hrunning hattempt, ← hbefore] at hrun
      rw [attempts_of_completed hrunning hattempt hrest.executed.1, List.foldl_cons,
        runSlices_of_returned hrunning hrun]
      exact ih _

/-! ### Traces -/

/-- A run without a limit that returns has come to the end of the program. -/
theorem finished_of_run_returned {device : Device σ} {fuel : Nat} {limit : Int} {machine : Machine}
    {host : σ} (hlimit : ¬ 0 < limit)
    (hreturned : (machine.run device fuel limit host).ending = .returned) :
    (machine.run device fuel limit host).machine.finished = true := by
  rw [run_of_nonpos hlimit] at hreturned ⊢
  obtain ⟨hsame, hended⟩ := ended_of_orOutOfFuel
    (show (machine.runSteps device fuel host).orOutOfFuel.ending ≠ .outOfFuel by simp [hreturned])
  rw [hsame] at hreturned ⊢
  exact hended.resolve_left (fun hnot => hnot hreturned)

/-- A run to the end of the program is a run of some instructions, however it is sliced. -/
theorem exists_runSteps_of_runToEnd (device : Device σ) (fuel : Nat) (limit : Int)
    (machine : Machine) (host : σ) :
    ∃ count, machine.runToEnd device fuel limit host =
      (machine.runSteps device count host).orOutOfFuel := by
  by_cases hlimit : 0 < limit
  · exact ⟨_, runSlices_eq_runSteps fuel hlimit fuel machine host⟩
  refine ⟨fuel, ?_⟩
  rw [← run_of_nonpos hlimit, runToEnd]
  cases hfinished : machine.finished with
  | true =>
      rw [runSlices_of_finished hfinished, run_of_nonpos hlimit, runSteps_of_finished hfinished]
      simp [RunResult.orOutOfFuel, hfinished]
  | false =>
      cases fuel with
      | zero => simp [runSlices, run, hlimit, runSteps, hfinished]
      | succ slices =>
          by_cases hreturned : (machine.run device (slices + 1) limit host).ending = .returned
          · -- a run without a limit returns only at the end of the program
            have hended := finished_of_run_returned hlimit hreturned
            rcases hrun : machine.run device (slices + 1) limit host with ⟨ending, next, after⟩
            rw [hrun] at hreturned hended
            obtain rfl : ending = .returned := hreturned
            rw [runSlices_of_returned hfinished hrun, runSlices_of_finished hended]
          · exact runSlices_of_ne_returned hfinished hreturned slices

/-- A writer that keeps what it is given gets one line for each attempt, in order. -/
theorem text_foldl_traceLine {writer : Writer τ} {text : τ → List UInt8}
    (hkeeps : writer.Keeps text) (attempts : List Machine) (target : τ) :
    text (attempts.foldl (fun target attempt => traceLine writer attempt target) target) =
      text target ++ attempts.flatMap fun attempt =>
        utf8Bytes (lineAt attempt.program.code attempt.pc ++ "\n") := by
  induction attempts generalizing target with
  | nil => simp
  | cons attempt attempts ih =>
      rw [List.foldl_cons, ih, traceLine_of_keeps hkeeps, List.flatMap_cons, List.append_assoc]

/-- A traced run is the run of the machine, and beside it the lines of all that it attempted. -/
theorem runTraced_beside (device : Device σ) (writer : Writer τ) (fuel : Nat) (machine : Machine)
    (host : σ) (target : τ) :
    machine.runTraced device.beside writer.beside fuel (host, target) =
      ⟨(machine.runSteps device fuel host).orOutOfFuel.ending,
        (machine.runSteps device fuel host).machine,
        ((machine.runSteps device fuel host).host,
          (machine.attempts device host (machine.runSteps device fuel host)).foldl
            (fun target attempt => traceLine writer attempt target) target)⟩ :=
  (runs_runSteps device fuel machine host).runSlices_beside (traceLine_beside writer) fuel target

/-- Tracing does not change a run: when the program ends without a trace, it ends with any writer
beside the host in the same way, on the same machine and host. A writer that takes every write is
given one line for each attempt, in order, which shows the position of the machine before it and
the instruction there. The device is any, so also one that keeps the calls made to it. -/
theorem runTraced_transparent (device : Device σ) (fuel : Nat) (limit : Int) (machine : Machine)
    (host : σ) (writer : Writer τ) (target : τ) :
    let plain := machine.runToEnd device fuel limit host
    (plain.ending ≠ .outOfFuel → ∃ enough, ∀ traceFuel, enough ≤ traceFuel → ∃ after,
      machine.runTraced device.beside writer.beside traceFuel (host, target) =
        ⟨plain.ending, plain.machine, (plain.host, after)⟩) ∧
    (writer.Accepts → ∀ traceFuel,
      let traced :=
        machine.runTraced device.beside writer.noting.beside traceFuel (host, (target, []))
      traced.host.2.2 = (List.range (machine.attempted traced)).flatMap (fun completed =>
        utf8Bytes (lineAt machine.program.code
          (machine.runSteps device completed host).machine.pc ++ "\n")) ∧
      ∀ completed < machine.attempted traced,
        let before := machine.runSteps device completed host
        before.ending = .returned ∧ before.machine.finished = false ∧
          before.machine.executed = machine.executed + completed) := by
  intro plain
  refine ⟨?_, ?_⟩
  · intro hending
    obtain ⟨count, hplain⟩ := exists_runSteps_of_runToEnd device fuel limit machine host
    have hplain : plain = _ := hplain
    rw [hplain] at hending ⊢
    obtain ⟨hsame, hended⟩ := ended_of_orOutOfFuel hending
    refine ⟨count, fun traceFuel hle => ?_⟩
    obtain ⟨more, rfl⟩ := Nat.exists_eq_add_of_le hle
    rw [runTraced_beside, runSteps_of_ended hended, hsame]
    exact ⟨_, rfl⟩
  · intro haccepts traceFuel traced
    have htraced : traced = _ := runTraced_beside device writer.noting traceFuel machine host _
    have hattempted : machine.attempted traced =
        machine.attempted (machine.runSteps device traceFuel host) := by
      apply attempted_of_orOutOfFuel
      · rw [htraced]
      · rw [htraced]
    have hgiven : traced.host.2.2 = _ :=
      (congrArg (fun result => result.host.2.2) htraced).trans
        (text_foldl_traceLine (Writer.noting_keeps haccepts) _ (target, []))
    rw [hattempted, hgiven, attempts, List.flatMap_map, List.nil_append]
    refine ⟨congrArg (List.flatMap · _) (funext fun completed => ?_), fun completed hlt =>
      (runs_runSteps device traceFuel machine host).of_lt_attempted hlt⟩
    rw [(runs_runSteps device completed machine host).program]

/-- A program whose third instruction finds the stack full is traced up to that instruction. -/
theorem runTraced_transparent_of_overflow :
    let machine : Machine := ⟨.ofCode #[25, 0, 28, 7, 28, 8], 0, #[0], .new 1, .unset, 0⟩
    let writer : Writer Nat := fun bytes writes => (⟨bytes.length, none⟩, writes + 1)
    (∃ enough, ∀ traceFuel, enough ≤ traceFuel →
      (machine.runTraced Device.keeping.beside writer.beside traceFuel ([], 0)).ending =
        .failed (.runtime 4 28 (.cause .stackOverflow))) ∧
    (machine.runTraced Device.keeping.beside writer.noting.beside 4 ([], (0, []))).host.2.2 =
      utf8Bytes "     0\tinc r0\n     2\tpush 7\n     4\tpush 8\n" := by
  intro machine writer
  have hplain : (machine.runToEnd Device.keeping 4 2 []).ending =
      .failed (.runtime 4 28 (.cause .stackOverflow)) := by decide +kernel
  obtain ⟨hsame, htext⟩ := runTraced_transparent Device.keeping 4 2 machine [] writer 0
  refine ⟨?_, ?_⟩
  · obtain ⟨enough, hends⟩ := hsame (by rw [hplain]; simp)
    refine ⟨enough, fun traceFuel hle => ?_⟩
    obtain ⟨after, htraced⟩ := hends traceFuel hle
    rw [htraced, hplain]
  · obtain ⟨hgiven, -⟩ := htext (fun _ _ => rfl) 4
    rw [hgiven]
    decide +kernel

end Machine

end Octet
