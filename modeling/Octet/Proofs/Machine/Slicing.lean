import Mathlib.Algebra.Order.BigOperators.Group.List
import Mathlib.Algebra.Order.Floor.Div
import Octet.Proofs.Machine.Calls

/-! # Runs in slices

A run may be cut into slices anywhere. Slices of any positive sizes, one after the
other until the program ends or an instruction is interrupted, come to the same
result as one run without a limit, if that one ends. Slices of one size are
counted: there is one for each full size of instructions executed, and one more
for the rest.
-/

namespace Octet

variable {σ : Type}

namespace RunResult

/-- A run followed by another one, unless the first was interrupted. -/
def andThen (result : RunResult σ) (next : Machine → σ → RunResult σ) : RunResult σ :=
  if result.ending = .returned then next result.machine result.host else result

/-- There is nothing left to run: the program has ended or an instruction was interrupted. -/
def Ended (result : RunResult σ) : Prop :=
  result.ending ≠ .returned ∨ result.machine.finished = true

end RunResult

namespace Machine

variable {device : Device σ} {machine : Machine} {host : σ}

/-- Slices of the given sizes, until the program ends or an instruction is interrupted. -/
def runBounds (device : Device σ) (fuel : Nat) : List Int → Machine → σ → RunResult σ
  | [], machine, host => ⟨.returned, machine, host⟩
  | limit :: limits, machine, host =>
    if machine.finished then ⟨.returned, machine, host⟩
    else (machine.run device fuel limit host).andThen (runBounds device fuel limits)

/-- The steps of a run can be taken in two parts. -/
theorem runSteps_add (count more : Nat) :
    machine.runSteps device (count + more) host =
      (machine.runSteps device count host).andThen (runSteps device more) :=
  (runs_runSteps device count machine host).runSteps_add more

/-- Slices are a run of as many instructions as they have together. -/
theorem runBounds_eq_runSteps (fuel : Nat) {bounds : List Int}
    (hbounds : ∀ bound ∈ bounds, 1 ≤ bound) (machine : Machine) (host : σ) :
    machine.runBounds device fuel bounds host = machine.runSteps device bounds.sum.toNat host := by
  induction bounds generalizing machine host with
  | nil => rfl
  | cons bound bounds ih =>
      obtain ⟨hbound, hrest⟩ := List.forall_mem_cons.mp hbounds
      have hsum : 0 ≤ bounds.sum := List.sum_nonneg fun other hother => by
        have := hrest other hother
        omega
      have htotal : (bound :: bounds).sum.toNat = bound.toNat + bounds.sum.toNat := by
        rw [List.sum_cons]
        omega
      rw [htotal]
      cases hfinished : machine.finished with
      | true =>
          rw [runSteps_of_finished hfinished]
          simp only [runBounds, hfinished, ↓reduceIte]
      | false =>
          rw [runSteps_add]
          simp only [runBounds, hfinished, Bool.false_eq_true, ↓reduceIte]
          rw [run_of_pos (by omega)]
          exact congrArg _ (funext₂ (ih hrest))

/-- A run that has come to an end is not changed by more instructions. -/
theorem runSteps_of_ended {count : Nat} (hended : (machine.runSteps device count host).Ended)
    (more : Nat) :
    machine.runSteps device (count + more) host = machine.runSteps device count host := by
  rw [runSteps_add]
  unfold RunResult.andThen
  split
  next hreturned =>
    have hfinished := hended.resolve_left (fun hnot => hnot hreturned)
    rw [runSteps_of_finished hfinished, ← hreturned]
  next => rfl

/-- All numbers of steps that are enough come to the same. -/
theorem runSteps_eq_of_ended {count other : Nat}
    (hcount : (machine.runSteps device count host).Ended)
    (hother : (machine.runSteps device other host).Ended) :
    machine.runSteps device count host = machine.runSteps device other host := by
  rcases Nat.le_total count other with hle | hle
  · obtain ⟨more, rfl⟩ := Nat.exists_eq_add_of_le hle
    exact (runSteps_of_ended hcount more).symm
  · obtain ⟨more, rfl⟩ := Nat.exists_eq_add_of_le hle
    exact runSteps_of_ended hother more

/-- A run that is asked for more instructions than another one executes until it ends, ends too. -/
theorem ended_of_executed_lt {count fuel : Nat}
    (hended : (machine.runSteps device fuel host).Ended)
    (hlt : (machine.runSteps device fuel host).machine.executed < machine.executed + count) :
    (machine.runSteps device count host).Ended := by
  by_contra hnot
  simp only [RunResult.Ended, not_or, not_not, Bool.not_eq_true] at hnot
  obtain ⟨hreturned, hrunning⟩ := hnot
  have hall := ((runs_runSteps device count machine host).executed.2.1 hreturned).2 hrunning
  rcases Nat.le_total fuel count with hle | hle
  · obtain ⟨more, rfl⟩ := Nat.exists_eq_add_of_le hle
    rw [runSteps_of_ended hended] at hall
    omega
  · obtain ⟨more, rfl⟩ := Nat.exists_eq_add_of_le hle
    rw [runSteps_add, RunResult.andThen, if_pos hreturned] at hlt
    have hmore := (runs_runSteps device more (machine.runSteps device count host).machine
      (machine.runSteps device count host).host).executed.1
    omega

/-- A result that does not tell of missing fuel is that of a run that has come to an end. -/
theorem ended_of_orOutOfFuel {result : RunResult σ}
    (hending : result.orOutOfFuel.ending ≠ .outOfFuel) :
    result.orOutOfFuel = result ∧ result.Ended := by
  unfold RunResult.orOutOfFuel at hending ⊢
  split at hending
  next => exact absurd rfl hending
  next hcut =>
    refine ⟨if_neg hcut, ?_⟩
    by_cases hreturned : result.ending = .returned
    · exact .inr (by simpa [hreturned] using hcut)
    · exact .inl hreturned

theorem runSlices_of_finished (hfinished : machine.finished = true) (beforeSlice : Machine → σ → σ)
    (fuel : Nat) (limit : Int) (slices : Nat) (host : σ) :
    machine.runSlices device beforeSlice fuel limit slices host = ⟨.returned, machine, host⟩ := by
  cases slices <;> simp [runSlices, hfinished]

/-- After a slice that returns, the next one goes on. -/
theorem runSlices_of_returned (hrunning : machine.finished = false)
    {beforeSlice : Machine → σ → σ} {fuel : Nat} {limit : Int} {next : Machine} {after : σ}
    (hrun : machine.run device fuel limit (beforeSlice machine host) = ⟨.returned, next, after⟩)
    (slices : Nat) :
    machine.runSlices device beforeSlice fuel limit (slices + 1) host =
      next.runSlices device beforeSlice fuel limit slices after := by
  simp only [runSlices, hrunning, Bool.false_eq_true, ↓reduceIte, hrun]

/-- A slice that does not return is the last one. -/
theorem runSlices_of_ne_returned (hrunning : machine.finished = false)
    {beforeSlice : Machine → σ → σ} {fuel : Nat} {limit : Int}
    (hending : (machine.run device fuel limit (beforeSlice machine host)).ending ≠ .returned)
    (slices : Nat) :
    machine.runSlices device beforeSlice fuel limit (slices + 1) host =
      machine.run device fuel limit (beforeSlice machine host) := by
  simp only [runSlices, hrunning, Bool.false_eq_true, ↓reduceIte]
  split
  next hrun => exact absurd (congrArg RunResult.ending hrun) hending
  next => rfl

/-- Slices of one size to the end of the program are a run that may run out of fuel. -/
theorem runSlices_eq_runSteps (fuel : Nat) {limit : Int} (hlimit : 0 < limit) (slices : Nat)
    (machine : Machine) (host : σ) :
    machine.runSlices device (fun _ host => host) fuel limit slices host =
      (machine.runSteps device (slices * limit.toNat) host).orOutOfFuel := by
  induction slices generalizing machine host with
  | zero =>
      rw [Nat.zero_mul]
      cases hfinished : machine.finished <;>
        simp [runSlices, runSteps, RunResult.orOutOfFuel, hfinished]
  | succ slices ih =>
      cases hfinished : machine.finished with
      | true =>
          rw [runSteps_of_finished hfinished, runSlices_of_finished hfinished]
          simp [RunResult.orOutOfFuel, hfinished]
      | false =>
          rw [Nat.succ_mul, Nat.add_comm (slices * limit.toNat), runSteps_add]
          simp only [runSlices, hfinished, Bool.false_eq_true, ↓reduceIte, run_of_pos hlimit]
          rcases machine.runSteps device limit.toNat host with ⟨ending, next, after⟩
          cases ending with
          | returned => exact ih next after
          | failed | passedOn | outOfFuel => rfl

/-- Slices on a host that is seen through a function are the slices on the host, seen through it. -/
theorem runSlices_view {τ : Type} {source : Device σ} {target : Device τ} {view : σ → τ}
    (hshows : source.Shows target view) {before : Machine → σ → σ} {seen : Machine → τ → τ}
    (hbefore : ∀ machine host, seen machine (view host) = view (before machine host)) (fuel : Nat)
    (limit : Int) (slices : Nat) (machine : Machine) (host : σ) :
    machine.runSlices target seen fuel limit slices (view host) =
      (machine.runSlices source before fuel limit slices host).view view := by
  induction slices generalizing machine host with
  | zero => rfl
  | succ slices ih =>
      cases hfinished : machine.finished with
      | true =>
          rw [runSlices_of_finished hfinished, runSlices_of_finished hfinished]
          rfl
      | false =>
          simp only [runSlices, hfinished, Bool.false_eq_true, ↓reduceIte, hbefore,
            run_view hshows]
          rcases machine.run source fuel limit (before machine host) with ⟨ending, next, after⟩
          cases ending with
          | returned => exact ih next after
          | failed | passedOn | outOfFuel => rfl

/-! ### Counting slices -/

/-- Counts the slices of a run beside its host. -/
def countSlice (_machine : Machine) : σ × Nat → σ × Nat
  | (host, slices) => (host, slices + 1)

/-- One full slice of instructions, or a last one that is not empty, adds one to the number of
slices. -/
theorem ceilDiv_slice {size first rest : Nat} (hsize : 0 < size) (hfirst : 0 < first)
    (hle : first ≤ size) (hfull : rest ≠ 0 → first = size) :
    (first + rest) ⌈/⌉ size = 1 + rest ⌈/⌉ size := by
  rw [Nat.ceilDiv_eq_add_pred_div, Nat.ceilDiv_eq_add_pred_div]
  by_cases hrest : rest = 0
  · subst hrest
    have hlast : (first + 0 + size - 1) / size = 1 :=
      Nat.div_eq_of_lt_le (by omega) (by omega)
    have hnone : (0 + size - 1) / size = 0 := Nat.div_eq_of_lt (by omega)
    rw [hlast, hnone]
  · rw [hfull hrest, show size + rest + size - 1 = rest + size - 1 + size by omega,
      Nat.add_div_right _ hsize]
    omega

/-- Counting the slices does not change the run. When it ends without an interruption, there are as
many slices as it takes to execute its instructions. -/
theorem runSlices_countSlice (fuel : Nat) {limit : Int} (hlimit : 0 < limit) (slices : Nat)
    (machine : Machine) (host : σ) (calls : Nat) :
    let plain := machine.runSlices device (fun _ host => host) fuel limit slices host
    let counted := machine.runSlices device.beside countSlice fuel limit slices (host, calls)
    counted.ending = plain.ending ∧ counted.machine = plain.machine ∧
      counted.host.1 = plain.host ∧ machine.executed ≤ plain.machine.executed ∧
      (plain.ending = .returned → counted.host.2 =
        calls + (plain.machine.executed - machine.executed) ⌈/⌉ limit.toNat) := by
  induction slices generalizing machine host calls with
  | zero => simp [runSlices]
  | succ slices ih =>
      cases hfinished : machine.finished with
      | true => simp [runSlices_of_finished hfinished]
      | false =>
          have hview := run_view (device.beside_shows (calls + 1)) fuel limit machine host
          have hruns := runs_runSteps device limit.toNat machine host
          rw [← run_of_pos hlimit fuel] at hruns
          simp only [runSlices, hfinished, Bool.false_eq_true, ↓reduceIte, countSlice, hview]
          rcases hslice : machine.run device fuel limit host with ⟨ending, next, after⟩
          rw [hslice] at hruns
          cases ending with
          | failed | passedOn | outOfFuel =>
              exact ⟨rfl, rfl, rfl, hruns.executed.1, fun hnever => by cases hnever⟩
          | returned =>
              simp only [RunResult.view]
              have hlt : machine.executed < next.executed :=
                hruns.executed_lt (by omega) hfinished rfl
              obtain ⟨hmost, hall⟩ : next.executed ≤ machine.executed + limit.toNat ∧
                  (next.finished = false → next.executed = machine.executed + limit.toNat) :=
                hruns.executed.2.1 rfl
              obtain ⟨hending, hmachine, hhost, hle, hcount⟩ := ih next after (calls + 1)
              -- a slice that ends the program leaves no instruction to the others
              have hrest : next.finished = true →
                  (next.runSlices device (fun _ host => host) fuel limit slices after).machine =
                    next := by
                intro hdone
                rw [runSlices_of_finished hdone]
              generalize next.runSlices device (fun _ host => host) fuel limit slices after = plain
                at *
              refine ⟨hending, hmachine, hhost, by omega, ?_⟩
              intro hreturned
              have hfull : plain.machine.executed - next.executed ≠ 0 →
                  next.executed - machine.executed = limit.toNat := by
                intro hsome
                cases hdone : next.finished with
                | true => simp [hrest hdone] at hsome
                | false =>
                    have := hall hdone
                    omega
              have hceil := ceilDiv_slice (by omega : 0 < limit.toNat)
                (by omega : 0 < next.executed - machine.executed) (by omega) hfull
              rw [hcount hreturned, Nat.add_assoc, ← hceil]
              congr 2
              omega

/-- A run may be cut into slices. Two limits in a row amount to their sum; slices of any sizes come
to the result of the run without a limit, if that one ends, and have come to it when they are long
enough; and a program that is run to its end in slices of one size takes as many of them as its
instructions fill. The device is any, so also one that keeps the calls made to it. -/
theorem run_sliced (device : Device σ) (fuel : Nat) (machine : Machine) (host : σ) :
    (∀ first second : Int, 1 ≤ first → 1 ≤ second →
      machine.run device fuel (first + second) host =
        (machine.run device fuel first host).andThen (run device fuel second)) ∧
    (∀ (bounds : List Int) (limit : Int), (∀ bound ∈ bounds, 1 ≤ bound) → limit ≤ 0 →
      (machine.run device fuel limit host).ending ≠ .outOfFuel →
      ((machine.runBounds device fuel bounds host).Ended →
        machine.runBounds device fuel bounds host = machine.run device fuel limit host) ∧
      ((machine.run device fuel limit host).machine.executed < machine.executed + bounds.sum →
        (machine.runBounds device fuel bounds host).Ended)) ∧
    (∀ limit : Int, 1 ≤ limit →
      let whole := machine.runToEnd device fuel limit host
      let counted := machine.runSlices device.beside countSlice fuel limit fuel (host, 0)
      (counted.ending = whole.ending ∧ counted.machine = whole.machine ∧
        counted.host.1 = whole.host) ∧
      ((machine.run device fuel 0 host).ending ≠ .outOfFuel →
        whole = machine.run device fuel 0 host) ∧
      (whole.ending = .returned → counted.host.2 =
        (whole.machine.executed - machine.executed) ⌈/⌉ limit.toNat)) := by
  refine ⟨?_, ?_, ?_⟩
  · intro first second hfirst hsecond
    have htotal : (first + second).toNat = first.toNat + second.toNat := by omega
    rw [run_of_pos (by omega), run_of_pos (by omega), htotal, runSteps_add]
    have hnext : (run device fuel second : Machine → σ → RunResult σ) =
        runSteps device second.toNat := funext₂ (run_of_pos (by omega) fuel)
    rw [hnext]
  · intro bounds limit hbounds hlimit hending
    have hsum : 0 ≤ bounds.sum := List.sum_nonneg fun bound hbound => by
      have := hbounds bound hbound
      omega
    rw [run_of_nonpos (by omega)] at hending ⊢
    obtain ⟨hwhole, hended⟩ := ended_of_orOutOfFuel hending
    rw [hwhole, runBounds_eq_runSteps fuel hbounds]
    exact ⟨fun hsliced => runSteps_eq_of_ended hsliced hended,
      fun hlt => ended_of_executed_lt hended (by omega)⟩
  · intro limit hlimit
    obtain ⟨hsame, hmachine, hhost, -, hcount⟩ :=
      runSlices_countSlice fuel (by omega : 0 < limit) fuel machine host 0
    refine ⟨⟨hsame, hmachine, hhost⟩, ?_, ?_⟩
    · intro hending
      rw [run_of_nonpos (by omega)] at hending ⊢
      obtain ⟨-, hended⟩ := ended_of_orOutOfFuel hending
      -- every slice has an instruction at least, so as many slices as fuel are enough
      have henough : fuel ≤ fuel * limit.toNat := Nat.le_mul_of_pos_right fuel (by omega)
      obtain ⟨more, hmore⟩ := Nat.exists_eq_add_of_le henough
      rw [runToEnd, runSlices_eq_runSteps fuel (by omega), hmore, runSteps_of_ended hended]
    · intro hreturned
      rw [runToEnd, hcount hreturned, Nat.zero_add]

/-- A program that increments a register, writes it and increments it again. -/
theorem run_sliced_of_increments :
    let machine : Machine := ⟨.ofCode #[25, 0, 44, 0, 25, 0], 0, #[0], .new 1, .unset, 0⟩
    let counted :=
      machine.runSlices Device.keeping.beside countSlice 4 2 4 ([], 0)
    machine.runBounds Device.keeping 4 [1, 3] [] = machine.run Device.keeping 4 0 [] ∧
      counted.host = ([[1]], 2) := by
  intro machine counted
  obtain ⟨-, hbounds, hcounted⟩ := run_sliced Device.keeping 4 machine []
  obtain ⟨hsame, hended⟩ := hbounds [1, 3] 0 (by decide) (by decide) (by decide +kernel)
  obtain ⟨⟨-, -, hhost⟩, -, hcount⟩ := hcounted 2 (by decide)
  have htexts : (machine.runToEnd Device.keeping 4 2 []).host = [[1]] := by decide +kernel
  have hslices : counted.host.2 = 2 := by
    rw [hcount (by decide +kernel), Nat.ceilDiv_eq_add_pred_div]
    decide +kernel
  exact ⟨hsame (hended (by decide +kernel)), Prod.ext (hhost.trans htexts) hslices⟩

end Machine

end Octet
