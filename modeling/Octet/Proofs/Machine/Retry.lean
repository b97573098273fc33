import Octet.Proofs.Machine.Slicing

/-! # Running again after a failure of the host

A host that refuses a call and is otherwise as before can be asked again: since the
interrupted instruction has left no trace, the next run repeats it and makes the same
call. So a run with such failures in between is the run without them, only slower.
The proof is a simulation that may stall: the run on the failing host keeps step with
the run on the other one, until a call is refused that the other host never sees.
-/

namespace Octet

variable {σ τ : Type}

/-! ### Simulations that may stall -/

/-- A call to a host of the first device is answered as by the related host of the second, and the
hosts are related again. Or it is refused, the second host is not asked, and the first has stalled
behind it. -/
structure Device.Stutters (device : Device σ) (target : Device τ) (related stalled : σ → τ → Prop) :
    Prop where
  read : ∀ {host other}, related host other →
    (∃ reply after next, Machine.askByte device host = (reply, after) ∧
      Machine.askByte target other = (reply, next) ∧ related after next) ∨
    (∃ failure after, Machine.askByte device host = (.refused failure, after) ∧
      stalled after other)
  write : ∀ {channel text host other}, related host other →
    (∃ reply after next, device.write channel text host = (reply, after) ∧
      target.write channel text other = (reply, next) ∧ related after next) ∨
    (∃ failure after, device.write channel text host = (.refused failure, after) ∧
      stalled after other)

section Stutters

variable {device : Device σ} {target : Device τ} {related stalled : σ → τ → Prop}

/-- An intent comes to the same on both hosts, or is refused on the one that stutters. -/
theorem Intent.perform_stutters {S : Type} (hstutters : device.Stutters target related stalled)
    (intent : Intent S) {host : σ} {other : τ} (hrelated : related host other) :
    (∃ result after next, intent.perform device host = (result, after) ∧
      intent.perform target other = (result, next) ∧ related after next) ∨
    (∃ failure after, intent.perform device host = (.error (.fault failure), after) ∧
      stalled after other) := by
  cases intent with
  | settle result => exact .inl ⟨_, host, other, rfl, rfl, hrelated⟩
  | read resume =>
      rcases hstutters.read hrelated with ⟨reply, after, next, hhost, hother, hagain⟩ |
        ⟨failure, after, hhost, hstalled⟩
      · exact .inl ⟨_, after, next, by rw [perform, hhost], by rw [perform, hother], hagain⟩
      · exact .inr ⟨failure, after, by rw [perform, hhost]; rfl, hstalled⟩
  | write channel text resume =>
      rcases hstutters.write hrelated with ⟨reply, after, next, hhost, hother, hagain⟩ |
        ⟨failure, after, hhost, hstalled⟩
      · exact .inl ⟨_, after, next, by rw [perform, hhost], by rw [perform, hother], hagain⟩
      · exact .inr ⟨failure, after, by rw [perform, hhost]; rfl, hstalled⟩

namespace Machine

/-- One instruction comes to the same on both hosts, or is refused on the one that stutters. -/
theorem attempt_stutters (hstutters : device.Stutters target related stalled) (machine : Machine)
    {host : σ} {other : τ} (hrelated : related host other) :
    (∃ result after next, machine.attempt device host = (result, after) ∧
      machine.attempt target other = (result, next) ∧ related after next) ∨
    (∃ failure after, machine.attempt device host = (.error (.fault failure), after) ∧
      stalled after other) := by
  cases hdecode : machine.decode with
  | error interruption =>
      exact .inl ⟨.error interruption, host, other, by rw [attempt, hdecode],
        by rw [attempt, hdecode], hrelated⟩
  | ok opcode =>
      simp only [attempt_of_decode _ hdecode]
      exact (machine.intent opcode).perform_stutters hstutters hrelated

/-- A run comes to the same on the related host; or it has stalled, and then the machine is as it is
after the instructions that were completed before. -/
theorem Runs.stutters (hstutters : device.Stutters target related stalled) {count : Nat}
    {machine : Machine} {host : σ} {result : RunResult σ}
    (hruns : Runs device count machine host result) {other : τ} (hrelated : related host other) :
    (∃ next, machine.runSteps target count other = ⟨result.ending, result.machine, next⟩ ∧
      related result.host next) ∨
    (result.ending ≠ .returned ∧ ∃ completed next,
      machine.runSteps target completed other = ⟨.returned, result.machine, next⟩ ∧
        stalled result.host next) := by
  induction hruns generalizing other with
  | stopped machine host => exact .inl ⟨other, rfl, hrelated⟩
  | finished count host hfinished =>
      exact .inl ⟨other, runSteps_of_finished hfinished count, hrelated⟩
  | @interrupted machine host after interruption count hrunning hattempt =>
      rcases machine.attempt_stutters hstutters hrelated with
        ⟨found, reached, next, hhost, hother, hagain⟩ | ⟨failure, reached, hhost, hstalled⟩
      · obtain ⟨rfl, rfl⟩ := Prod.mk.inj (hattempt.symm.trans hhost)
        exact .inl ⟨next, runSteps_of_interrupted hrunning hother count, hagain⟩
      · obtain ⟨-, rfl⟩ := Prod.mk.inj (hattempt.symm.trans hhost)
        exact .inr ⟨endingOf_ne_returned _ _ _, 0, other, rfl, hstalled⟩
  | @completed machine middle host after count result hrunning hattempt hrest ih =>
      rcases machine.attempt_stutters hstutters hrelated with
        ⟨found, reached, next, hhost, hother, hagain⟩ | ⟨failure, reached, hhost, -⟩
      · obtain ⟨rfl, rfl⟩ := Prod.mk.inj (hattempt.symm.trans hhost)
        rcases ih hagain with hsame | ⟨hending, completed, hstalled⟩
        · rw [runSteps_of_completed hrunning hother]
          exact .inl hsame
        · refine .inr ⟨hending, completed + 1, ?_⟩
          rw [runSteps_of_completed hrunning hother]
          exact hstalled
      · cases (Prod.mk.inj (hattempt.symm.trans hhost)).1

end Machine

end Stutters

/-! ### Injected failures -/

/-- A host some of whose calls are refused before they reach it. -/
structure Faulty (σ : Type) where
  host : σ
  /-- What becomes of the next calls: each of them passes, or is refused with a failure. -/
  pattern : List (Option Failure)
  /-- The number of calls refused so far. -/
  injected : Nat

namespace Faulty

/-- A call that passes or is refused as the pattern says; calls behind the pattern pass. -/
def call {α : Type} (next : σ → Reply α × σ) : Faulty σ → Reply α × Faulty σ
  | ⟨host, some failure :: pattern, injected⟩ => (.refused failure, ⟨host, pattern, injected + 1⟩)
  | ⟨host, pattern, injected⟩ =>
    let (reply, host) := next host
    (reply, ⟨host, pattern.tail, injected⟩)

/-- The number of failures to come. -/
def failures (host : Faulty σ) : Nat := host.pattern.countP Option.isSome

/-- The calls since `start` have all passed and have come to `reached`. -/
def Passed (start host : Faulty σ) (reached : σ) : Prop :=
  host.host = reached ∧ host.injected = start.injected ∧ host.failures = start.failures

/-- The calls since `start` have passed and have come to `reached`, but for the last one, which was
refused. -/
def Refused (start host : Faulty σ) (reached : σ) : Prop :=
  host.host = reached ∧ host.injected = start.injected + 1 ∧ host.failures + 1 = start.failures

/-- A call of a host that may fail is passed on, or it is refused and nothing else happens. -/
theorem call_cases {α : Type} (next : σ → Reply α × σ) {start host : Faulty σ} {reached : σ}
    (hpassed : Passed start host reached) :
    (∃ after, host.call next = ((next reached).1, after) ∧ Passed start after (next reached).2) ∨
    (∃ failure after, host.call next = (.refused failure, after) ∧
      Refused start after reached) := by
  obtain ⟨host, pattern, injected⟩ := host
  obtain ⟨rfl, hinjected, hfailures⟩ := hpassed
  match pattern with
  | some failure :: pattern =>
      refine .inr ⟨failure, ⟨host, pattern, injected + 1⟩, rfl, rfl, congrArg (· + 1) hinjected, ?_⟩
      rw [← hfailures]
      simp [failures]
  | none :: pattern =>
      refine .inl ⟨⟨(next host).2, pattern, injected⟩, rfl, rfl, hinjected, ?_⟩
      rw [← hfailures]
      simp [failures]
  | [] => exact .inl ⟨⟨(next host).2, [], injected⟩, rfl, rfl, hinjected, hfailures⟩

end Faulty

/-- The device of a host some of whose calls are refused before they reach it. -/
def Device.faulty (device : Device σ) : Device (Faulty σ) where
  read := Faulty.call device.read
  write := fun channel text => Faulty.call (device.write channel text)

/-- A host that may fail stutters compared to the one that it stands for. -/
theorem Device.faulty_stutters (device : Device σ) (start : Faulty σ) :
    device.faulty.Stutters device (Faulty.Passed start) (Faulty.Refused start) := by
  constructor
  · intro host other hpassed
    rcases Faulty.call_cases device.read hpassed with ⟨after, hcall, hagain⟩ |
      ⟨failure, after, hcall, hrefused⟩
    · exact .inl ⟨_, after, _, by simp only [Machine.askByte, faulty, hcall], rfl, hagain⟩
    · exact .inr ⟨_, after, by simp only [Machine.askByte, faulty, hcall]; rfl, hrefused⟩
  · intro channel text host other hpassed
    rcases Faulty.call_cases (device.write channel text) hpassed with ⟨after, hcall, hagain⟩ |
      ⟨failure, after, hcall, hrefused⟩
    · exact .inl ⟨_, after, _, hcall, rfl, hagain⟩
    · exact .inr ⟨_, after, hcall, hrefused⟩

/-! ### Running again -/

namespace Machine

variable {device : Device σ}

/-- Runs with the given limits, one after the other: again after a run that its limit or an injected
failure has stopped, until the program ends or a failure comes from the host itself. -/
def runAgain (device : Device σ) (fuel : Nat) :
    List Int → Machine → Faulty σ → RunResult (Faulty σ)
  | [], machine, host => ⟨.returned, machine, host⟩
  | limit :: limits, machine, host =>
    if machine.finished then ⟨.returned, machine, host⟩
    else
      let result := machine.run device.faulty fuel limit host
      if result.ending = .returned ∨ result.host.injected ≠ host.injected then
        runAgain device fuel limits result.machine result.host
      else result

/-- A run goes on from where its first steps have returned. -/
theorem runSteps_of_returned {completed : Nat} {machine next : Machine} {host after : σ}
    (hfirst : machine.runSteps device completed host = ⟨.returned, next, after⟩) (more : Nat) :
    machine.runSteps device (completed + more) host = next.runSteps device more after := by
  rw [runSteps_add, hfirst]
  rfl

/-- A run that ends comes to the same from any point on the way. -/
theorem runSteps_of_ended_returned {fuel completed : Nat} {machine next : Machine} {host after : σ}
    (hended : (machine.runSteps device fuel host).Ended)
    (hfirst : machine.runSteps device completed host = ⟨.returned, next, after⟩) :
    next.runSteps device fuel after = machine.runSteps device fuel host := by
  rw [← runSteps_of_returned hfirst, Nat.add_comm, runSteps_of_ended hended]

theorem orOutOfFuel_of_ended {result : RunResult σ} (hended : result.Ended) :
    result.orOutOfFuel = result := by
  apply if_neg
  rintro ⟨hreturned, hrunning⟩
  rcases hended with hending | hfinished
  · exact hending hreturned
  · rw [hfinished] at hrunning
    cases hrunning

/-- The fuel of a run that ends is enough for a run with injected failures. -/
theorem exists_runSteps_of_run_faulty {fuel : Nat} {machine : Machine} {host : Faulty σ}
    (hended : (machine.runSteps device fuel host.host).Ended) (hrunning : machine.finished = false)
    (limit : Int) :
    ∃ count, 0 < count ∧
      machine.run device.faulty fuel limit host = machine.runSteps device.faulty count host := by
  by_cases hlimit : 0 < limit
  · exact ⟨limit.toNat, by omega, run_of_pos hlimit fuel machine host⟩
  · refine ⟨fuel, Nat.pos_of_ne_zero ?_, ?_⟩
    · rintro rfl
      rcases hended with hending | hfinished
      · exact hending rfl
      · exact Bool.false_ne_true (hrunning.symm.trans hfinished)
    · rw [run_of_nonpos hlimit]
      apply orOutOfFuel_of_ended
      rcases (runs_runSteps device.faulty fuel machine host).stutters (device.faulty_stutters host)
        ⟨rfl, rfl, rfl⟩ with ⟨next, hsame, -⟩ | ⟨hending, -⟩
      · rw [hsame] at hended
        exact hended
      · exact .inl hending

/-- A run with injected failures has come to what some instructions on the host itself come to, or
it was stopped by an injected failure behind them. -/
theorem run_faulty {fuel : Nat} {machine : Machine} {host : Faulty σ}
    (hended : (machine.runSteps device fuel host.host).Ended) (hrunning : machine.finished = false)
    (limit : Int) :
    let result := machine.run device.faulty fuel limit host
    ((∃ completed, machine.runSteps device completed host.host =
        ⟨result.ending, result.machine, result.host.host⟩) ∧
      result.host.injected = host.injected ∧ result.host.failures = host.failures ∧
      (result.ending = .returned → machine.executed < result.machine.executed)) ∨
    ((∃ completed, machine.runSteps device completed host.host =
        ⟨.returned, result.machine, result.host.host⟩) ∧
      result.host.injected = host.injected + 1 ∧ result.host.failures + 1 = host.failures) := by
  obtain ⟨count, hcount, hrun⟩ := exists_runSteps_of_run_faulty hended hrunning limit
  have hruns := runs_runSteps device.faulty count machine host
  rw [hrun]
  rcases hruns.stutters (device.faulty_stutters host) ⟨rfl, rfl, rfl⟩ with
    ⟨_, hsame, rfl, hinjected, hfailures⟩ | ⟨-, completed, _, hstopped, rfl, hinjected, hfailures⟩
  · exact .inl ⟨⟨count, hsame⟩, hinjected, hfailures, hruns.executed_lt hcount hrunning⟩
  · exact .inr ⟨⟨completed, hstopped⟩, hinjected, hfailures⟩

/-- All the runs together have come to what some instructions on the host itself come to. Each run
that does not end them executes an instruction or uses up a failure, so they end. -/
theorem runAgain_reaches {fuel : Nat} (limits : List Int) {machine : Machine} {host : Faulty σ}
    (hended : (machine.runSteps device fuel host.host).Ended) :
    let again := machine.runAgain device fuel limits host
    (∃ completed, machine.runSteps device completed host.host =
      ⟨again.ending, again.machine, again.host.host⟩) ∧
    ((machine.runSteps device fuel host.host).machine.executed + host.failures <
      machine.executed + limits.length → again.Ended) := by
  have hle := (runs_runSteps device fuel machine host.host).executed.1
  induction limits generalizing machine host with
  | nil =>
      refine ⟨⟨0, rfl⟩, fun hlt => ?_⟩
      simp only [List.length_nil] at hlt
      omega
  | cons limit limits ih =>
      cases hfinished : machine.finished with
      | true =>
          simp only [runAgain, hfinished, ↓reduceIte]
          exact ⟨⟨0, rfl⟩, fun _ => .inr hfinished⟩
      | false =>
          simp only [runAgain, hfinished, Bool.false_eq_true, ↓reduceIte, List.length_cons]
          have hrun := run_faulty hended hfinished limit
          generalize machine.run device.faulty fuel limit host = result at *
          -- after a run that is followed by another one, the rest is that of the run itself
          have hagain {completed : Nat} (hfirst : machine.runSteps device completed host.host =
                ⟨.returned, result.machine, result.host.host⟩)
              (hless : result.host.failures + machine.executed <
                host.failures + result.machine.executed) :
              let again := result.machine.runAgain device fuel limits result.host
              (∃ completed, machine.runSteps device completed host.host =
                ⟨again.ending, again.machine, again.host.host⟩) ∧
              ((machine.runSteps device fuel host.host).machine.executed + host.failures <
                machine.executed + (limits.length + 1) → again.Ended) := by
            have hrest := runSteps_of_ended_returned hended hfirst
            obtain ⟨⟨more, hmore⟩, hends⟩ := ih (hrest ▸ hended)
              (runs_runSteps device fuel result.machine result.host.host).executed.1
            refine ⟨⟨completed + more, (runSteps_of_returned hfirst more).trans hmore⟩, ?_⟩
            intro hlt
            rw [hrest] at hends
            exact hends (by omega)
          rcases hrun with ⟨⟨completed, hfirst⟩, hinjected, hfailures, hprogress⟩ |
            ⟨⟨completed, hfirst⟩, hinjected, hfailures⟩
          · by_cases hreturned : result.ending = .returned
            · rw [if_pos (.inl hreturned)]
              rw [hreturned] at hfirst
              have := hprogress hreturned
              exact hagain hfirst (by omega)
            · rw [if_neg (by simp [hreturned, hinjected])]
              exact ⟨⟨completed, hfirst⟩, fun _ => .inl hreturned⟩
          · rw [if_pos (.inr (by omega))]
            have hexecuted := (runs_runSteps device completed machine host.host).executed.1
            rw [hfirst] at hexecuted
            exact hagain hfirst (by simp only at hexecuted; omega)

/-- Once they have ended, they have come to what the run without failures comes to. -/
theorem runAgain_of_ended {fuel : Nat} {limits : List Int} {machine : Machine} {host : Faulty σ}
    (hended : (machine.runSteps device fuel host.host).Ended)
    (hagain : (machine.runAgain device fuel limits host).Ended) :
    let again := machine.runAgain device fuel limits host
    machine.runSteps device fuel host.host = ⟨again.ending, again.machine, again.host.host⟩ := by
  intro again
  obtain ⟨⟨completed, hreached⟩, -⟩ := runAgain_reaches limits hended
  have hreachedEnded : (machine.runSteps device completed host.host).Ended := by
    rw [hreached]
    exact hagain
  rw [← hreached]
  exact runSteps_eq_of_ended hended hreachedEnded

end Machine

end Octet
