import Octet.Machine.Report
import Octet.Proofs.Machine.Run

/-! # The calls a machine makes

A device that keeps the calls made to another one shows what a program does to its
host. Keeping the calls does not change a run: this is an instance of a law on
hosts that are seen through a function, which runs commute with.
-/

namespace Octet

variable {σ τ : Type}

/-- A call to a host and its answer. -/
inductive HostCall where
  | read (reply : Reply UInt8)
  | write (channel : Channel) (text : List UInt8) (reply : Reply Unit)
  deriving DecidableEq, Repr

/-- What a call interrupts an instruction with, if the host does not do what it was asked to. -/
def HostCall.interruption? : HostCall → Option Interruption
  | read (.ok _) | write _ _ (.ok _) => none
  | read (.refused failure) =>
    some (.fault (if failure.meansEndOfFile then .cause .endOfInput else failure))
  | write _ _ (.refused failure) => some (.fault failure)
  | read (.broken failure) | write _ _ (.broken failure) => some (.broken failure)
  | read (.brokenText text) | write _ _ (.brokenText text) => some (.brokenText text)

/-- The host gave an answer or refused to. -/
def Reply.Returned {α : Type} : Reply α → Prop
  | ok _ | refused _ => True
  | broken _ | brokenText _ => False

/-- A host that does not break off interrupts an instruction only by refusing. -/
theorem Reply.Returned.exists_refused {α : Type} {reply : Reply α} {interruption : Interruption}
    (hreturned : reply.Returned) (hresult : reply.result = .error interruption) :
    ∃ failure, reply = .refused failure ∧ interruption = .fault failure := by
  cases reply with
  | ok value => cases hresult
  | refused failure => exact ⟨failure, rfl, (Except.error.inj hresult).symm⟩
  | broken failure | brokenText text => cases hreturned

namespace Device

/-- The device that keeps the calls made to another one, in order, beside the host. -/
def recording (device : Device σ) : Device (σ × List HostCall) where
  read := fun (host, calls) =>
    let (reply, host) := device.read host
    (reply, (host, calls ++ [.read reply]))
  write := fun channel text (host, calls) =>
    let (reply, host) := device.write channel text host
    (reply, (host, calls ++ [.write channel text reply]))

/-- The device of a host that has no input and keeps the texts it is sent, in order. -/
def keeping : Device (List (List UInt8)) where
  read := fun texts => (.refused (.cause .endOfFile), texts)
  write := fun _ text texts => (.ok (), texts ++ [text])

/-- The hosts of the device answer or refuse every call; they do not break off. -/
structure Returns (device : Device σ) : Prop where
  read : ∀ host, (device.read host).1.Returned
  write : ∀ channel text host, (device.write channel text host).1.Returned

theorem Returns.askByte {device : Device σ} (hdevice : device.Returns) (host : σ) :
    (Machine.askByte device host).1.Returned := by
  have hreturned := hdevice.read host
  simp only [Machine.askByte]
  cases hreply : (device.read host).1 with
  | ok value | refused failure => trivial
  | broken failure | brokenText text =>
      rw [hreply] at hreturned
      cases hreturned

theorem keeping_returns : keeping.Returns := ⟨fun _ => trivial, fun _ _ _ => trivial⟩

/-- The hosts of one device, seen through a function, behave as hosts of another one. -/
structure Shows (source : Device σ) (target : Device τ) (view : σ → τ) : Prop where
  read : ∀ host, target.read (view host) = ((source.read host).1, view (source.read host).2)
  write : ∀ channel text host, target.write channel text (view host) =
    ((source.write channel text host).1, view (source.write channel text host).2)

/-- The calls that are recorded do not bear on what a host does. -/
theorem recording_shows (device : Device σ) : device.recording.Shows device Prod.fst :=
  ⟨fun _ => rfl, fun _ _ _ => rfl⟩

/-- What stands beside a host does not bear on what the host does. -/
theorem beside_shows (device : Device σ) (other : τ) :
    device.Shows (device.beside : Device (σ × τ)) (·, other) :=
  ⟨fun _ => rfl, fun _ _ _ => rfl⟩

end Device

/-- A result with its host seen through a function. -/
def RunResult.view (result : RunResult σ) (view : σ → τ) : RunResult τ :=
  ⟨result.ending, result.machine, view result.host⟩

theorem RunResult.orOutOfFuel_view (result : RunResult σ) (view : σ → τ) :
    (result.view view).orOutOfFuel = result.orOutOfFuel.view view := by
  obtain ⟨ending, machine, host⟩ := result
  cases hfinished : machine.finished <;> cases ending <;>
    simp [orOutOfFuel, RunResult.view, hfinished]

namespace Intent

variable {S : Type} {source : Device σ} {target : Device τ} {view : σ → τ}

/-- An intent comes to the same on a host and on what is shown of it. -/
theorem perform_view (hshows : source.Shows target view) (intent : Intent S) (host : σ) :
    intent.perform target (view host) =
      ((intent.perform source host).1, view (intent.perform source host).2) := by
  cases intent with
  | settle result => rfl
  | read resume =>
      have hask : Machine.askByte target (view host) =
          ((Machine.askByte source host).1, view (Machine.askByte source host).2) := by
        simp only [Machine.askByte, hshows.read]
      simp only [perform, hask]
  | write channel text resume => simp only [perform, hshows.write]

end Intent

namespace Machine

variable {source : Device σ} {target : Device τ} {view : σ → τ}

/-- One instruction comes to the same on a host and on what is shown of it. -/
theorem attempt_view (hshows : source.Shows target view) (machine : Machine) (host : σ) :
    machine.attempt target (view host) =
      ((machine.attempt source host).1, view (machine.attempt source host).2) := by
  unfold attempt
  cases machine.decode with
  | error interruption => rfl
  | ok opcode => exact Intent.perform_view hshows _ host

/-- A run on a host that is seen through a function is the run on the host, seen through it. -/
theorem Runs.runSteps_view (hshows : source.Shows target view) {count : Nat} {machine : Machine}
    {host : σ} {result : RunResult σ} (hruns : Runs source count machine host result) :
    machine.runSteps target count (view host) = result.view view := by
  induction hruns with
  | stopped machine host => rfl
  | finished count host hfinished => exact runSteps_of_finished hfinished count
  | interrupted count hrunning hattempt =>
      refine runSteps_of_interrupted hrunning ?_ count
      rw [attempt_view hshows, hattempt]
  | completed hrunning hattempt hrest ih =>
      rw [← ih]
      refine runSteps_of_completed hrunning ?_ _
      rw [attempt_view hshows, hattempt]

/-- A whole run comes to the same on a host and on what is shown of it. -/
theorem run_view (hshows : source.Shows target view) (fuel : Nat) (limit : Int) (machine : Machine)
    (host : σ) :
    machine.run target fuel limit (view host) = (machine.run source fuel limit host).view view := by
  by_cases hlimit : 0 < limit
  · rw [run_of_pos hlimit, run_of_pos hlimit,
      (runs_runSteps source _ machine host).runSteps_view hshows]
  · rw [run_of_nonpos hlimit, run_of_nonpos hlimit,
      (runs_runSteps source fuel machine host).runSteps_view hshows, RunResult.orOutOfFuel_view]

/-! ### What calls keep -/

section Kept

variable {device : Device σ} {invariant : σ → Prop}

/-- What every call keeps of a host, every instruction keeps. -/
theorem attempt_preserves_host (hread : ∀ host, invariant host → invariant (device.read host).2)
    (hwrite : ∀ channel text host, invariant host → invariant (device.write channel text host).2)
    (machine : Machine) {host : σ} (hhost : invariant host) :
    invariant (machine.attempt device host).2 := by
  cases hdecode : machine.decode with
  | error interruption => simpa only [attempt, hdecode] using hhost
  | ok opcode =>
      rw [attempt_of_decode device hdecode]
      cases machine.intent opcode with
      | settle result => exact hhost
      | read resume => exact hread host hhost
      | write channel text resume => exact hwrite channel text host hhost

/-- What every call keeps of the host, a run keeps. -/
theorem Runs.preserves_host (hread : ∀ host, invariant host → invariant (device.read host).2)
    (hwrite : ∀ channel text host, invariant host → invariant (device.write channel text host).2)
    {count : Nat} {machine : Machine} {host : σ} {result : RunResult σ}
    (hruns : Runs device count machine host result) (hhost : invariant host) :
    invariant result.host := by
  induction hruns with
  | stopped | finished => exact hhost
  | @interrupted machine host after _ _ _ hattempt =>
      have hafter := machine.attempt_preserves_host hread hwrite hhost
      rwa [hattempt] at hafter
  | @completed machine next host after _ _ _ hattempt _ ih =>
      have hafter := machine.attempt_preserves_host hread hwrite hhost
      rw [hattempt] at hafter
      exact ih hafter

end Kept

end Machine

end Octet
