import Octet.Proofs.Host.Readers
import Octet.Proofs.Host.Resumption

/-! # What the end of the input means

The stack of readers goes on to the next reader at the plain end only, while an input
instruction takes an end with layers around it for the end of the input as well. So a
program may be told that its input has ended although there is input below a reader
that ends with layers. There is such a program exactly if bytes stand below such a
reader: what blocks is neither removed nor added by reading, and a program that reads
for ever comes to it.
-/

namespace Octet

namespace Pile

/-- No bytes stand below a supply that ends in another way than the plain one. -/
def Unblocked (pile : Pile) : Prop :=
  pile.Pairwise fun upper lower => upper.ending = .cause .endOfFile ∨ lower.bytes = []

def UsedUp (pile : Pile) : Prop := ∀ supply ∈ pile, supply.bytes = []

/-- All supplies end in a way that a machine takes for the end of its input. -/
def EndsInput (pile : Pile) : Prop := ∀ supply ∈ pile, supply.ending.meansEndOfFile = true

instance (pile : Pile) : Decidable pile.Unblocked := inferInstanceAs (Decidable (List.Pairwise _ _))

instance (pile : Pile) : Decidable pile.UsedUp := inferInstanceAs (Decidable (∀ _ ∈ _, _))

instance (pile : Pile) : Decidable pile.EndsInput := inferInstanceAs (Decidable (∀ _ ∈ _, _))

def size (pile : Pile) : Nat := (pile.map fun supply => supply.bytes.length).sum

variable {pile left : Pile} {reply : Reply UInt8} {closings : List String}

/-- Spent supplies on top do not bear on whether a pile is blocked. -/
theorem unblocked_append_iff {spent : Pile} (hspent : ∀ supply ∈ spent, supply.Spent)
    (rest : Pile) : Unblocked (spent ++ rest) ↔ rest.Unblocked := by
  unfold Unblocked
  rw [List.pairwise_append]
  constructor
  · exact fun hpile => hpile.2.1
  · intro hrest
    refine ⟨?_, hrest, ?_⟩
    · exact List.pairwise_of_forall_mem_list fun upper hupper _ _ => .inl (hspent upper hupper).2
    · exact fun upper hupper _ _ => .inl (hspent upper hupper).2

/-- Reading neither blocks nor unblocks. -/
theorem Reads.unblocked_iff (hreads : pile.Reads reply closings left) :
    left.Unblocked ↔ pile.Unblocked := by
  cases hreads with
  | byte hspent hbytes =>
      rw [unblocked_append_iff hspent]
      simp only [Unblocked, List.pairwise_cons]
  | ended hspent hbytes hending => rw [unblocked_append_iff hspent]
  | @nothing spent hspent =>
      have hpile := unblocked_append_iff hspent []
      rwa [List.append_nil, iff_comm] at hpile

theorem UsedUp.unblocked (hused : pile.UsedUp) : pile.Unblocked :=
  List.pairwise_of_forall_mem_list fun _ _ lower hlower => .inr (hused lower hlower)

/-- Where nothing blocks, an answer that is no byte is given only when nothing is left. -/
theorem Reads.usedUp_of_refused {failure : Failure}
    (hreads : pile.Reads (.refused failure) closings left) (hpile : pile.Unblocked) :
    left.UsedUp := by
  have hleft := hreads.unblocked_iff.mpr hpile
  unfold UsedUp
  cases hreads with
  | ended hspent hbytes hending =>
      obtain ⟨hbelow, -⟩ := List.pairwise_cons.mp hleft
      rw [List.forall_mem_cons]
      exact ⟨hbytes, fun lower hlower => (hbelow lower hlower).resolve_left hending⟩
  | nothing hspent => exact List.forall_mem_nil _

/-- Reading gives a byte, and there are fewer of them, or a machine takes the answer for the end of
its input. -/
theorem Reads.byte_or_endsInput (hreads : pile.Reads reply closings left)
    (hends : pile.EndsInput) :
    (∃ byte, Machine.inputReply reply = .ok byte ∧ left.EndsInput ∧ left.size < pile.size) ∨
      Machine.inputReply reply = .refused (.cause .endOfInput) := by
  cases hreads with
  | byte hspent hbytes =>
      obtain ⟨-, hrest⟩ := List.forall_mem_append.mp hends
      refine .inl ⟨_, rfl, ?_, ?_⟩
      · unfold EndsInput
        rwa [List.forall_mem_cons] at hrest ⊢
      · simp only [size, List.map_append, List.map_cons, List.sum_append, List.sum_cons, hbytes,
          List.length_cons]
        omega
  | @ended spent below top hspent hbytes hending =>
      have htop : top.ending.meansEndOfFile = true := hends top (by simp)
      exact .inr (by simp [Machine.inputReply, htop])
  | nothing hspent => exact .inr rfl

end Pile

namespace Host

/-- Runs keep the input a pile, and what blocks. -/
theorem exists_unblocked_iff_of_runs {count : Nat} {machine : Machine} {host : Host}
    {result : RunResult Host} (hruns : Machine.Runs Host.device count machine host result)
    {pile : Pile} (hpile : host.input.pile? = some pile) :
    ∃ left, result.host.input.pile? = some left ∧ (left.Unblocked ↔ pile.Unblocked) := by
  let kept (host : Host) : Prop :=
    ∃ left, host.input.pile? = some left ∧ (left.Unblocked ↔ pile.Unblocked)
  have hhost : kept host := ⟨pile, hpile, Iff.rfl⟩
  refine hruns.preserves_host ?_ ?_ hhost
  · rintro host ⟨before, hbefore, hsame⟩
    obtain ⟨_, _, left, hreads, -, hstate⟩ := host.exists_reads_read hbefore
    exact ⟨left, congrArg InputState.pile hstate, hreads.unblocked_iff.trans hsame⟩
  · rintro channel text host ⟨before, hbefore, hsame⟩
    refine ⟨before, ?_, hsame⟩
    cases channel <;> exact hbefore

/-- Where nothing blocks, a program that is told of the end of its input has used it up. -/
theorem exists_usedUp_of_endOfInput {host : Host} {pile : Pile}
    (hpile : host.input.pile? = some pile) (hunblocked : pile.Unblocked) {machine : Machine}
    {fuel pc : Nat} {limit : Int}
    (hended : (machine.run Host.device fuel limit host).ending =
      .failed (.runtime pc Opcode.input.toByte (.cause .endOfInput))) :
    ∃ left, (machine.run Host.device fuel limit host).host.input.pile? = some left ∧
      left.UsedUp := by
  obtain ⟨count, -, hruns⟩ := Machine.exists_runs_of_failed hended
  obtain ⟨completed, -, interruption, -, -, hrunning, hattempt, -, hending⟩ :=
    hruns.exists_interrupted (by rw [hended]; simp)
  -- the instructions before the one that is told so have not made anything block
  obtain ⟨before, hbefore, hsame⟩ := exists_unblocked_iff_of_runs
    (Machine.runs_runSteps Host.device completed machine host) hpile
  obtain ⟨reply, _, left, hreads, hread, hstate⟩ := exists_reads_read _ hbefore
  obtain ⟨hreply, hafter⟩ : Machine.inputReply (read _).1 = _ ∧ (read _).2 = _ :=
    Prod.mk.inj (Machine.askByte_of_endOfInput hrunning hattempt (hending.symm.trans hended))
  rw [hread] at hreply
  rw [hafter] at hstate
  refine ⟨left, congrArg InputState.pile hstate, ?_⟩
  cases reply with
  | refused failure => exact hreads.usedUp_of_refused (hsame.mpr hunblocked)
  | ok | broken | brokenText => cases hreply

end Host

/-! ### The program that reads for ever -/

namespace Machine

variable {σ : Type} {device : Device σ} {host after : σ}

/-- A machine that reads into its register, over and over: an input instruction and a branch back to
it. -/
def reading (value : UInt8) (executed : Nat) : Machine :=
  ⟨.ofCode #[41, 0, 34, 0, 0], 0, #[value], .new 1, .unset, executed⟩

/-- The first instruction of the loop asks for a byte. -/
theorem attempt_reading (value : UInt8) (executed : Nat) :
    (reading value executed).attempt device host =
      ((askByte device host).1.result.map fun byte => (reading byte executed).complete 2,
        (askByte device host).2) := by
  have hdecode : (reading value executed).decode = .ok .input := rfl
  rw [attempt_of_decode device hdecode]
  rfl

theorem attempt_complete_reading (value : UInt8) (executed : Nat) :
    ((reading value executed).complete 2).attempt device host =
      (.ok (reading value (executed + 2)), host) := by
  have htarget : (Cluster.ofCode #[41, 0, 34, 0, 0]).isTarget 0 = true := by decide +kernel
  have hdecode : ((reading value executed).complete 2).decode = .ok (.branch .always) := by
    refine decode_iff.mpr ⟨Nat.le_refl 5, rfl, List.forall_mem_singleton.mpr ?_⟩
    exact checkOperand_label_iff.mpr ⟨Nat.lt_succ_self 4, htarget⟩
  rw [attempt_of_decode device hdecode]
  rfl

/-- Each byte takes the loop around once. -/
theorem runSteps_reading_of_byte {byte : UInt8}
    (hask : askByte device host = (.ok byte, after)) (value : UInt8) (executed count : Nat) :
    (reading value executed).runSteps device (count + 2) host =
      (reading byte (executed + 2)).runSteps device count after := by
  have hattempt : (reading value executed).attempt device host =
      (.ok ((reading byte executed).complete 2), after) := by
    rw [attempt_reading, hask]
    rfl
  rw [runSteps_of_completed rfl hattempt]
  exact runSteps_of_completed rfl (attempt_complete_reading byte executed) count

/-- A refusal is reported by the first instruction of the loop. -/
theorem runSteps_reading_of_refused {failure : Failure}
    (hask : askByte device host = (.refused failure, after)) (value : UInt8)
    (executed count : Nat) :
    (reading value executed).runSteps device (count + 1) host =
      ⟨.failed (.runtime 0 Opcode.input.toByte failure), reading value executed, after⟩ := by
  have hattempt : (reading value executed).attempt device host =
      (.error (.fault failure), after) := by
    rw [attempt_reading, hask]
    rfl
  exact runSteps_of_interrupted rfl hattempt count

end Machine

namespace Host

/-- If all readers end in a way that a machine takes for the end of its input, this program comes to
it. -/
theorem exists_runSteps_reading {host : Host} {pile : Pile} (hpile : host.input.pile? = some pile)
    (hends : pile.EndsInput) (value : UInt8) (executed : Nat) :
    ∃ count, ((Machine.reading value executed).runSteps Host.device (count + 1) host).ending =
      .failed (.runtime 0 Opcode.input.toByte (.cause .endOfInput)) := by
  obtain ⟨reply, _, left, hreads, hread, hstate⟩ := host.exists_reads_read hpile
  have hask : Machine.askByte Host.device host = (Machine.inputReply reply, host.read.2) := by
    rw [← hread]
    rfl
  rcases hreads.byte_or_endsInput hends with ⟨byte, hbyte, hleft, hsize⟩ | hended
  · rw [hbyte] at hask
    obtain ⟨count, hcount⟩ := exists_runSteps_reading (congrArg InputState.pile hstate) hleft byte
      (executed + 2)
    refine ⟨count + 2, ?_⟩
    rwa [← Machine.runSteps_reading_of_byte hask value executed] at hcount
  · rw [hended] at hask
    exact ⟨0, congrArg RunResult.ending (Machine.runSteps_reading_of_refused hask value executed 0)⟩
termination_by pile.size

/-- Let all readers on the stack end in a way that a machine takes for the end of its input. Every
program that is told so by an input instruction has used up all of them exactly if no bytes stand
below a reader whose end has layers around it. -/
theorem endOfInput_usedUp_iff {host : Host} {pile : Pile} (hpile : host.input.pile? = some pile)
    (hends : pile.EndsInput) :
    (∀ (machine : Machine) (fuel : Nat) (limit : Int) (pc : Nat),
      (machine.run Host.device fuel limit host).ending =
          .failed (.runtime pc Opcode.input.toByte (.cause .endOfInput)) →
        ∃ left, (machine.run Host.device fuel limit host).host.input.pile? = some left ∧
          left.UsedUp) ↔
      pile.Unblocked := by
  constructor
  · intro hused
    obtain ⟨count, hended⟩ := exists_runSteps_reading hpile hends 0 0
    have hrun : (Machine.reading 0 0).run Host.device 0 (count + 1 : Nat) host =
        (Machine.reading 0 0).runSteps Host.device (count + 1) host :=
      Machine.run_of_pos (by omega) 0 _ host
    obtain ⟨left, hleft, hempty⟩ := hused (Machine.reading 0 0) 0 (count + 1 : Nat) 0
      (by rw [hrun]; exact hended)
    -- what is left is not blocked, so nothing was
    obtain ⟨same, hsame, hunblocked⟩ := exists_unblocked_iff_of_runs
      (Machine.runs_runSteps Host.device (count + 1) (Machine.reading 0 0) host) hpile
    rw [hrun, hsame, Option.some.injEq] at hleft
    exact hunblocked.mp (hleft ▸ hempty.unblocked)
  · intro hunblocked machine fuel limit pc hended
    exact exists_usedUp_of_endOfInput hpile hunblocked hended

/-- A reader that ends with a layer below one that ends plainly. -/
theorem endOfInput_usedUp_iff_of_two :
    let channel : OutputChannel := ⟨.console, [], []⟩
    let closing := Failure.context "console closed" (.cause .endOfFile)
    let readers := [Reader.ofBytes [1] none, Reader.polling [2] closing 1 false none]
    let host : Host := ⟨.stack readers, [], channel, channel, .cause .endOfFile, []⟩
    let result := (Machine.reading 0 0).run Host.device 9 0 host
    result.ending = .failed (.runtime 0 Opcode.input.toByte (.cause .endOfInput)) ∧
      result.machine.registers = #[2] ∧
      ∃ left, result.host.input.pile? = some left ∧ left.UsedUp := by
  intro channel closing readers host result
  have hended : result.ending = .failed (.runtime 0 Opcode.input.toByte (.cause .endOfInput)) := by
    decide +kernel
  have hends : (pileOf readers).EndsInput := by decide +kernel
  have hunblocked : (pileOf readers).Unblocked := by decide +kernel
  have hused := (endOfInput_usedUp_iff (show host.input.pile? = some _ from rfl) hends).mpr
    hunblocked
  exact ⟨hended, by decide +kernel, hused _ _ _ _ hended⟩

/-- The same readers in the other order: the program is told of the end with a byte to read. -/
theorem endOfInput_of_blocked :
    let channel : OutputChannel := ⟨.console, [], []⟩
    let closing := Failure.context "console closed" (.cause .endOfFile)
    let readers := [Reader.polling [2] closing 1 false none, Reader.ofBytes [1] none]
    let host : Host := ⟨.stack readers, [], channel, channel, .cause .endOfFile, []⟩
    let result := (Machine.reading 0 0).run Host.device 9 0 host
    (pileOf readers).EndsInput ∧
      result.ending = .failed (.runtime 0 Opcode.input.toByte (.cause .endOfInput)) ∧
      result.host.input.pile? = some [⟨[], closing, none⟩, ⟨[1], .cause .endOfFile, none⟩] ∧
      ¬ ∃ left, result.host.input.pile? = some left ∧ left.UsedUp := by
  intro channel closing readers host result
  have hleft : result.host.input.pile? =
      some [⟨[], closing, none⟩, ⟨[1], .cause .endOfFile, none⟩] := by decide +kernel
  refine ⟨by decide +kernel, by decide +kernel, hleft, ?_⟩
  rintro ⟨left, hsame, hused⟩
  obtain rfl := Option.some.inj (hleft.symm.trans hsame)
  revert hused
  decide +kernel

end Host

end Octet
