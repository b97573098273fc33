import Octet.Proofs.Machine.Extension
import Octet.Proofs.Machine.Invariant

/-! # Resetting a machine

What a host can do to a machine, as a list of operations with an answer to each. Slots
of the stack above its size may hold anything, and a reset leaves them as they are, so
a machine that was reset is not the machine it was when it was new. No operation tells
the two apart: machines that differ in unused slots only give the same answers and
still differ in nothing else.
-/

namespace Octet

variable {σ : Type}

/-! ### Operations -/

/-- What a host sees of a machine without a further question. -/
structure View where
  program : Cluster
  instructionCount : Nat
  instructionIndex : Nat
  pc : Nat
  finished : Bool
  executed : Nat
  flag : UInt8
  registers : Array UInt8
  registerCount : Nat
  values : List UInt8
  stackSize : Nat
  stackCapacity : Nat

/-- What a host can do to a machine, or ask of it. -/
inductive Operation (σ : Type) where
  | load (program : Cluster)
  | run (device : Device σ) (fuel : Nat) (limit : Int)
  | reset
  | setRegister (index : Int) (value : UInt8)
  | push (value : UInt8)
  | pop
  | poke (slot : Int) (value : UInt8)
  /-- A value is written to where the host has seen one on the stack, which may be some time ago. -/
  | overwrite (slot : Nat) (value : UInt8)
  /-- The host changes, while the machine does not. -/
  | rearrange (change : σ → σ)
  | register (index : Int)
  | stackValue (slot : Int)
  | look

/-- The answer to an operation. -/
inductive Answer where
  | done
  | missing
  | refused (failure : Failure)
  | value (value : UInt8)
  | ended (ending : Ending)
  | seen (view : View)

/-- An answer, or some, and what they leave behind. -/
structure Answered (σ α : Type) where
  answer : α
  machine : Machine
  host : σ

namespace Machine

/-- What a host sees of a machine. -/
def view (machine : Machine) : View where
  program := machine.program
  instructionCount := machine.program.count
  instructionIndex := machine.instructionIndex
  pc := machine.pc
  finished := machine.finished
  executed := machine.executed
  flag := machine.flag.toByte
  registers := machine.registers
  registerCount := machine.registers.size
  values := machine.stack.values
  stackSize := machine.stack.size
  stackCapacity := machine.stack.capacity

/-- The machine with a value in a slot of its stack, whether the slot is in use or not. -/
def overwrite (machine : Machine) (slot : Nat) (value : UInt8) : Machine :=
  let stack := machine.stack
  { machine with stack := { stack with slots := stack.slots.setIfInBounds slot value } }

/-- A value can be overwritten in place where there is one. -/
theorem poke?_eq (machine : Machine) (slot : Int) (value : UInt8) :
    machine.poke? slot value =
      if 0 ≤ slot ∧ slot.toNat < machine.stack.size then
        some (machine.overwrite slot.toNat value)
      else none := rfl

/-- Performs an operation. One that is refused changes nothing. -/
def perform (machine : Machine) (host : σ) : Operation σ → Answered σ Answer
  | .load program => ⟨.done, machine.load program, host⟩
  | .run device fuel limit =>
    let result := machine.run device fuel limit host
    ⟨.ended result.ending, result.machine, result.host⟩
  | .reset => ⟨.done, machine.reset, host⟩
  | .setRegister index value =>
    match machine.setRegister index value with
    | .ok next => ⟨.done, next, host⟩
    | .error failure => ⟨.refused failure, machine, host⟩
  | .push value =>
    match machine.push value with
    | .ok next => ⟨.done, next, host⟩
    | .error failure => ⟨.refused failure, machine, host⟩
  | .pop =>
    match machine.pop with
    | .ok (value, next) => ⟨.value value, next, host⟩
    | .error failure => ⟨.refused failure, machine, host⟩
  | .poke slot value =>
    match machine.poke? slot value with
    | some next => ⟨.done, next, host⟩
    | none => ⟨.missing, machine, host⟩
  | .overwrite slot value => ⟨.done, machine.overwrite slot value, host⟩
  | .rearrange change => ⟨.done, machine, change host⟩
  | .register index =>
    match machine.register index with
    | .ok value => ⟨.value value, machine, host⟩
    | .error failure => ⟨.refused failure, machine, host⟩
  | .stackValue slot =>
    match machine.stackValue slot with
    | .ok value => ⟨.value value, machine, host⟩
    | .error failure => ⟨.refused failure, machine, host⟩
  | .look => ⟨.seen machine.view, machine, host⟩

/-- Performs some operations, one after the other. -/
def performAll (machine : Machine) (host : σ) : List (Operation σ) → Answered σ (List Answer)
  | [] => ⟨[], machine, host⟩
  | operation :: operations =>
    let first := machine.perform host operation
    let rest := first.machine.performAll first.host operations
    ⟨first.answer :: rest.answer, rest.machine, rest.host⟩

end Machine

/-! ### Stacks that differ in unused slots -/

namespace Stack.Extends

variable {spare : Nat} {small large : Stack}

theorem clear (hextends : Extends spare small large) : small.clear.Extends spare large.clear := by
  refine ⟨?_, rfl, Nat.zero_le _, Nat.zero_le _⟩
  rw [Machine.capacity_clear, Machine.capacity_clear, hextends.capacity]

/-- A value that is written to both stacks is on both of them, or above both. -/
theorem overwrite (hextends : Extends spare small large) (slot : Nat) (value : UInt8) :
    Extends spare { small with slots := small.slots.setIfInBounds slot value }
      { large with slots := large.slots.setIfInBounds slot value } := by
  obtain ⟨hcapacity, hvalues, hsmall, hlarge⟩ := hextends
  refine ⟨?_, ?_, ?_, ?_⟩
  · simpa [Stack.capacity] using hcapacity
  · simp only [Stack.values, Array.toList_setIfInBounds, List.take_set]
    exact congrArg (List.set · slot value) hvalues
  · simpa [Stack.WellFormed, Stack.capacity] using hsmall
  · simpa [Stack.WellFormed, Stack.capacity] using hlarge

theorem getD (hextends : Extends spare small large) {slot : Nat} (hslot : slot < small.size) :
    large.slots.getD slot 0 = small.slots.getD slot 0 := by
  have hread : ∀ {stack : Stack}, slot < stack.size →
      stack.slots.getD slot 0 = (stack.values[slot]?).getD 0 := by
    intro stack hlt
    rw [Stack.values, List.getElem?_take_of_lt hlt, Array.getElem?_toList,
      Array.getD_eq_getD_getElem?]
  rw [hread hslot, hread (hextends.size ▸ hslot), hextends.values]

end Stack.Extends

namespace Machine

/-- The machines differ at most in the unused slots of their stacks. -/
def Alike (machine other : Machine) : Prop := Extends [] 0 machine other

end Machine

/-- Two operations were answered in the same way, and leave machines that are alike. -/
structure Answered.Alike {α : Type} (result other : Answered σ α) : Prop where
  answer : other.answer = result.answer
  host : other.host = result.host
  machine : result.machine.Alike other.machine

namespace Machine.Alike

variable {machine other : Machine}

theorem registers (halike : Alike machine other) : other.registers = machine.registers := by
  apply Array.toList_inj.mp
  rw [Extends.registers halike, List.append_nil]

/-- What can be seen of a machine from outside is the same for machines that are alike. -/
theorem view (halike : Alike machine other) : other.view = machine.view := by
  have hcapacity : other.stack.capacity = machine.stack.capacity := halike.stack.capacity
  simp only [Machine.view, instructionIndex, halike.finished, halike.program, halike.pc,
    halike.executed, halike.flag, halike.registers, halike.stack.values, halike.stack.size,
    hcapacity]

theorem load (halike : Alike machine other) (program : Cluster) :
    Alike (machine.load program) (other.load program) := by
  have hregisters := Extends.registers halike
  exact ⟨rfl, rfl, halike.flag, rfl, hregisters, halike.stack⟩

theorem reset (halike : Alike machine other) : Alike machine.reset other.reset := by
  refine ⟨halike.program, rfl, rfl, rfl, ?_, halike.stack.clear⟩
  simp only [Machine.reset, halike.registers, List.append_nil]

/-- Runs of machines that are alike come to the same. -/
theorem run (halike : Alike machine other) (device : Device σ) (fuel : Nat) (limit : Int)
    (host : σ) :
    (machine.run device fuel limit host).Extends [] 0 (other.run device fuel limit host) := by
  rcases Extends.run halike (.inl rfl) fuel limit host with hsame | ⟨hsizes, -⟩
  · exact hsame
  · exact absurd ⟨rfl, rfl⟩ hsizes

/-- A register can be set in both machines, or in neither for the same reason. -/
theorem setRegister (halike : Alike machine other) (index : Int) (value : UInt8) :
    (∃ next after, machine.setRegister index value = .ok next ∧
      other.setRegister index value = .ok after ∧ Alike next after) ∨
    ∃ failure, machine.setRegister index value = .error failure ∧
      other.setRegister index value = .error failure := by
  unfold Machine.setRegister
  rw [halike.registers]
  by_cases hthere : 0 ≤ index ∧ index.toNat < machine.registers.size
  · rw [if_pos hthere, if_pos hthere]
    exact .inl ⟨_, _, rfl, rfl, halike.program, halike.pc, halike.flag, halike.executed,
      (List.append_nil _).symm, halike.stack⟩
  · rw [if_neg hthere, if_neg hthere]
    exact .inr ⟨_, rfl, rfl⟩

/-- One operation answers the same on machines that are alike, and leaves them alike. -/
theorem perform (halike : Alike machine other) (host : σ) (operation : Operation σ) :
    (machine.perform host operation).Alike (other.perform host operation) := by
  cases operation with
  | load program => exact ⟨rfl, rfl, halike.load program⟩
  | run device fuel limit =>
      obtain ⟨hending, hhost, hmachine⟩ := halike.run device fuel limit host
      exact ⟨congrArg Answer.ended hending, hhost, hmachine⟩
  | reset => exact ⟨rfl, rfl, halike.reset⟩
  | setRegister index value =>
      simp only [Machine.perform]
      rcases halike.setRegister index value with
        ⟨next, after, hnext, hafter, hagain⟩ | ⟨failure, hmachine, hother⟩
      · rw [hnext, hafter]
        exact ⟨rfl, rfl, hagain⟩
      · rw [hmachine, hother]
        exact ⟨rfl, rfl, halike⟩
  | push value =>
      simp only [Machine.perform, Machine.push]
      rcases halike.stack.push value with ⟨next, after, hnext, hafter, hagain⟩ | ⟨hfull, hother⟩
      · rw [hnext, hafter]
        exact ⟨rfl, rfl, Extends.withStack halike hagain⟩
      · rw [hfull, hother rfl]
        exact ⟨rfl, rfl, halike⟩
  | pop =>
      simp only [Machine.perform, Machine.pop]
      rcases halike.stack.pop with ⟨value, next, after, hnext, hafter, hagain⟩ |
        ⟨cause, hmachine, hother⟩
      · rw [hnext, hafter]
        exact ⟨rfl, rfl, Extends.withStack halike hagain⟩
      · rw [hmachine, hother]
        exact ⟨rfl, rfl, halike⟩
  | poke slot value =>
      simp only [Machine.perform, poke?_eq, halike.stack.size]
      by_cases hslot : 0 ≤ slot ∧ slot.toNat < machine.stack.size
      · rw [if_pos hslot, if_pos hslot]
        exact ⟨rfl, rfl, Extends.withStack halike (halike.stack.overwrite _ value)⟩
      · rw [if_neg hslot, if_neg hslot]
        exact ⟨rfl, rfl, halike⟩
  | overwrite slot value =>
      exact ⟨rfl, rfl, Extends.withStack halike (halike.stack.overwrite slot value)⟩
  | rearrange change => exact ⟨rfl, rfl, halike⟩
  | register index =>
      have hsame : other.register index = machine.register index := by
        simp only [Machine.register, halike.registers]
      simp only [Machine.perform, hsame]
      cases machine.register index <;> exact ⟨rfl, rfl, halike⟩
  | stackValue slot =>
      have hsame : other.stackValue slot = machine.stackValue slot := by
        simp only [Machine.stackValue, halike.stack.size]
        by_cases hslot : 0 ≤ slot ∧ slot.toNat < machine.stack.size
        · rw [if_pos hslot, if_pos hslot, halike.stack.getD hslot.2]
        · rw [if_neg hslot, if_neg hslot]
      simp only [Machine.perform, hsame]
      cases machine.stackValue slot <;> exact ⟨rfl, rfl, halike⟩
  | look => exact ⟨congrArg Answer.seen halike.view, rfl, halike⟩

/-- Any operations answer the same on machines that are alike, and leave them alike. -/
theorem performAll (halike : Alike machine other) (host : σ) (operations : List (Operation σ)) :
    (machine.performAll host operations).Alike (other.performAll host operations) := by
  induction operations generalizing machine other host with
  | nil => exact ⟨rfl, rfl, halike⟩
  | cons operation operations ih =>
      obtain ⟨hanswer, hhost, hmachine⟩ := halike.perform host operation
      simp only [Machine.performAll, hanswer, hhost]
      have hrest := ih hmachine (machine.perform host operation).host
      exact ⟨congrArg (_ :: ·) hrest.answer, hrest.host, hrest.machine⟩

end Machine.Alike

namespace Machine

/-! ### Histories -/

/-- No operation changes the sizes of a machine. -/
theorem hasSizes_of_perform {registers capacity : Nat} {machine : Machine}
    (hsizes : machine.HasSizes registers capacity) (host : σ) (operation : Operation σ) :
    (machine.perform host operation).machine.HasSizes registers capacity := by
  have hchanged : ∀ {next}, Changes (fun _ => True) machine next →
      next.HasSizes registers capacity := fun hchanges => hsizes.of_changes hchanges
  cases operation with
  | load program => exact hchanged (.load machine trivial)
  | run device fuel limit => exact hchanged (.run device fuel limit machine host)
  | reset => exact hchanged (.reset machine)
  | setRegister index value =>
      simp only [perform]
      split
      next hset => exact hchanged (.setRegister hset)
      next => exact hsizes
  | push value =>
      simp only [perform]
      split
      next hpush => exact hchanged (.push hpush)
      next => exact hsizes
  | pop =>
      simp only [perform]
      split
      next hpop => exact hchanged (.pop hpop)
      next => exact hsizes
  | poke slot value =>
      simp only [perform]
      split
      next hpoke => exact hchanged (.poke hpoke)
      next => exact hsizes
  | overwrite slot value =>
      obtain ⟨hregisters, hcapacity, hstack⟩ := hsizes
      refine ⟨hregisters, ?_, ?_⟩
      · simpa [perform, overwrite, Stack.capacity] using hcapacity
      · simpa [perform, overwrite, Stack.WellFormed, Stack.capacity] using hstack
  | rearrange change => exact hsizes
  | register index =>
      simp only [perform]
      split <;> exact hsizes
  | stackValue slot =>
      simp only [perform]
      split <;> exact hsizes
  | look => exact hsizes

/-- No sequence of operations changes the sizes of a machine. -/
theorem hasSizes_of_performAll {registers capacity : Nat} {machine : Machine}
    (hsizes : machine.HasSizes registers capacity) (host : σ) (operations : List (Operation σ)) :
    (machine.performAll host operations).machine.HasSizes registers capacity := by
  induction operations generalizing machine host with
  | nil => exact hsizes
  | cons operation operations ih => exact ih (hasSizes_of_perform hsizes host operation) _

/-- If a machine of some sizes can be made at all, it can be made with any program, and then nothing
else is in it. -/
theorem new_of_new {registers capacity : Int}
    {settings : List (Machine → Except Failure Machine)} {start : Machine}
    (hnew : Machine.new registers capacity settings = .ok start) (program : Cluster) :
    Machine.new registers capacity [fun bare => .ok (bare.load program)] =
      .ok ⟨program, 0, Array.replicate registers.toNat 0, .new capacity.toNat, .unset, 0⟩ := by
  unfold Machine.new at hnew ⊢
  split at hnew
  next => cases hnew
  next hregisters =>
    split at hnew
    next => cases hnew
    next hcapacity =>
      rw [if_neg hregisters, if_neg hcapacity]
      rfl

/-- A machine that is reset is like a new one with the same program. -/
theorem HasSizes.alike_reset {registers capacity : Nat} {machine : Machine}
    (hsizes : machine.HasSizes registers capacity) :
    Alike machine.reset
      ⟨machine.program, 0, Array.replicate registers 0, .new capacity, .unset, 0⟩ := by
  refine ⟨rfl, rfl, rfl, rfl, ?_, ?_, rfl, Nat.zero_le _, Nat.zero_le _⟩
  · simp only [reset, hsizes.registers, List.append_nil]
  · simp only [reset, capacity_clear, hsizes.capacity, Nat.add_zero]
    simp [Stack.new, Stack.capacity]

/-- A reset erases all history. Whatever was done to a machine since it was new, once it is reset it
gives the same answers to any further operations as a new machine of its sizes with the same program
does, and the host comes to the same state. -/
theorem reset_erases {registers capacity : Int}
    {settings : List (Machine → Except Failure Machine)}
    (hsettings : ∀ setting ∈ settings, IsSetting setting) {start : Machine}
    (hnew : Machine.new registers capacity settings = .ok start) (history : List (Operation σ))
    (host : σ) :
    let machine := (start.performAll host history).machine
    ∃ fresh, Machine.new registers capacity [fun bare => .ok (bare.load machine.program)] =
        .ok fresh ∧
      ∀ {τ : Type} (later : List (Operation τ)) (host : τ),
        let result := machine.reset.performAll host later
        let expected := fresh.performAll host later
        result.answer = expected.answer ∧ result.host = expected.host := by
  intro machine
  obtain ⟨-, bare, hbare, happlied⟩ := new_of_settings hnew
  have hstart : Reachable registers capacity (fun _ => True) start :=
    (Reachable.new hbare).trans (changes_of_settings hsettings happlied)
  have hsizes : machine.HasSizes registers.toNat capacity.toNat :=
    hasSizes_of_performAll hstart.hasSizes host history
  refine ⟨_, new_of_new hnew machine.program, ?_⟩
  intro τ later host result expected
  have hsame := hsizes.alike_reset.performAll host later
  exact ⟨hsame.answer.symm, hsame.host.symm⟩

/-- A value that was taken from the stack is still in its slot after a reset, where the new machine
has none. -/
theorem reset_erases_of_stale :
    let program := Cluster.ofCode #[28, 5, 29, 0, 30, 0]
    let start : Machine := ⟨.empty, 0, #[0], .new 1, .unset, 0⟩
    let history : List (Operation (List (List UInt8))) := [.load program, .push 7, .pop]
    let machine := (start.performAll [] history).machine
    let later : List (Operation (List (List UInt8))) :=
      [.run Device.keeping 4 0, .overwrite 0 9, .stackValue 0, .push 6, .look]
    machine.reset.stack.slots = #[7] ∧
      ∃ fresh, Machine.new 1 1 [fun bare => .ok (bare.load program)] = .ok fresh ∧
        fresh.stack.slots = #[0] ∧
        (machine.reset.performAll [] later).answer = (fresh.performAll [] later).answer := by
  intro program start history machine later
  have hsettings : ∀ setting ∈ ([] : List (Machine → Except Failure Machine)),
      IsSetting setting := fun _ hmem => by cases hmem
  have hnew : Machine.new 1 1 [] = .ok start := rfl
  obtain ⟨fresh, hfresh, hsame⟩ := reset_erases hsettings hnew history []
  have hslots : fresh.stack.slots = #[0] := by
    obtain rfl := Except.ok.inj hfresh
    rfl
  exact ⟨by decide +kernel, fresh, hfresh, hslots, (hsame later []).1⟩

end Machine

end Octet
