import Octet.Proofs.Host.Input
import Octet.Proofs.Machine.Atomicity
import Octet.Proofs.Machine.Retry

/-! # Going on after the end of the input

A run that stops at the end of its input is no different from one that is stopped by
a failure of the host: when more input is put on top, it goes on as if the input had
been one from the start.
-/

namespace Octet

namespace Host

/-- The hosts write to the same places, and what they are to deliver is one of the given pairs. -/
def Paired (pairs : List UInt8 → List UInt8 → Prop) (host other : Host) : Prop :=
  host.outputs = other.outputs ∧
    ∃ left right, pairs left right ∧ host.Delivers left ∧ other.Delivers right

/-- The hosts write to the same places; the first one has come to the end of its input. -/
def Waits (further : List UInt8) (host other : Host) : Prop :=
  host.outputs = other.outputs ∧ host.Delivers [] ∧ other.Delivers further

section Paired

variable {pairs : List UInt8 → List UInt8 → Prop} {host other : Host}

/-- Paired hosts take a text in the same way and remain paired. -/
theorem Paired.write (hpaired : Paired pairs host other) (channel : Channel)
    (text : List UInt8) :
    (other.write channel text).1 = (host.write channel text).1 ∧
      Paired pairs (host.write channel text).2 (other.write channel text).2 := by
  obtain ⟨houtputs, left, right, hpair, hleft, hright⟩ := hpaired
  obtain ⟨hreply, hafter⟩ := write_congr houtputs channel text
  exact ⟨hreply.symm, hafter, left, right, hpair, hleft.write channel text,
    hright.write channel text⟩

/-- Hosts that are read remain paired if what they have left is. -/
theorem Paired.read (houtputs : host.outputs = other.outputs) {left right : List UInt8}
    (hpair : pairs left right) (hleft : host.read.2.Delivers left)
    (hright : other.read.2.Delivers right) : Paired pairs host.read.2 other.read.2 :=
  ⟨by rw [outputs_read, outputs_read, houtputs], left, right, hpair, hleft, hright⟩

/-- Only reading can make hosts stall that write to the same places. -/
theorem stutters_of_read {stalled : Host → Host → Prop}
    (hread : ∀ {host other}, Paired pairs host other →
      (Machine.inputReply other.read.1 = Machine.inputReply host.read.1 ∧
        Paired pairs host.read.2 other.read.2) ∨
      (∃ failure, Machine.inputReply host.read.1 = .refused failure ∧
        stalled host.read.2 other)) :
    Host.device.Stutters Host.device (Paired pairs) stalled := by
  constructor
  · intro host other hpaired
    rcases hread hpaired with ⟨hreply, hagain⟩ | ⟨failure, hreply, hstalled⟩
    · exact .inl ⟨_, host.read.2, other.read.2, rfl, Prod.ext hreply rfl, hagain⟩
    · exact .inr ⟨failure, host.read.2, Prod.ext hreply rfl, hstalled⟩
  · intro channel text host other hpaired
    obtain ⟨hreply, hagain⟩ := hpaired.write channel text
    exact .inl ⟨_, (host.write channel text).2, (other.write channel text).2, rfl,
      Prod.ext hreply rfl, hagain⟩

/-- A host with less input than another one keeps step with it until its input ends. -/
theorem leads_stutters (further : List UInt8) :
    Host.device.Stutters Host.device (Paired fun left right => right = left ++ further)
      (Waits further) := by
  apply stutters_of_read
  rintro host other ⟨houtputs, left, _, rfl, hhost, hother⟩
  cases left with
  | nil =>
      obtain ⟨hreply, hended⟩ := delivers_nil_iff.mp hhost
      exact .inr ⟨_, hreply, (outputs_read host).trans houtputs, hended, hother⟩
  | cons byte left =>
      obtain ⟨hreply, hrest⟩ := delivers_cons_iff.mp hhost
      obtain ⟨hsame, hothers⟩ := delivers_cons_iff.mp hother
      exact .inl ⟨hsame.trans hreply.symm, .read houtputs rfl hrest hothers⟩

/-- Hosts with the same input, the rest of the given bytes, keep step. -/
theorem same_stutters (bytes : List UInt8) :
    Host.device.Stutters Host.device (Paired fun left right => right = left ∧ left <:+ bytes)
      fun _ _ => False := by
  apply stutters_of_read
  rintro host other ⟨houtputs, left, right, ⟨hright, hrest⟩, hhost, hother⟩
  subst hright
  cases right with
  | nil =>
      obtain ⟨hreply, hended⟩ := delivers_nil_iff.mp hhost
      obtain ⟨hsame, hothers⟩ := delivers_nil_iff.mp hother
      exact .inl ⟨hsame.trans hreply.symm, .read houtputs ⟨rfl, hrest⟩ hended hothers⟩
  | cons byte right =>
      obtain ⟨hreply, hleft⟩ := delivers_cons_iff.mp hhost
      obtain ⟨hsame, hothers⟩ := delivers_cons_iff.mp hother
      have hshorter : right <:+ bytes := (List.suffix_cons byte right).trans hrest
      exact .inl ⟨hsame.trans hreply.symm, .read houtputs ⟨rfl, hshorter⟩ hleft hothers⟩

end Paired

end Host

namespace Machine

variable {σ : Type}

theorem eq_refused_of_result {α : Type} {reply : Reply α} {failure : Failure}
    (hresult : reply.result = .error (.fault failure)) : reply = .refused failure := by
  cases reply with
  | refused found =>
      obtain rfl := Interruption.fault.inj (Except.error.inj hresult)
      rfl
  | ok | broken | brokenText => cases hresult

/-- An input instruction is not told of the end of the input when it is decoded. -/
theorem decode_ne_endOfInput {machine : Machine} (hrunning : machine.finished = false)
    (hopcode : Opcode.ofByte? (machine.operandByte 0) = some .input) :
    machine.decode ≠ .error (.fault (.cause .endOfInput)) := by
  have hlt : machine.pc + 0 < machine.program.size := finished_eq_false_iff.mp hrunning
  simp only [decode, byteAt_of_lt hlt, hopcode, bind, Except.bind]
  split
  next => simp [throw, throwThe, MonadExceptOf.throw]
  next hfits =>
    have hnext : machine.pc + 1 < machine.program.size := by
      have hsize : Opcode.input.size = 2 := rfl
      omega
    by_cases hindex : (machine.operandByte 1).toNat < machine.registers.size <;>
      simp [Opcode.operands, checkOperands, checkOperand, byteAt_of_lt hnext, hindex, bind,
        Except.bind, pure, Except.pure, throw, throwThe, MonadExceptOf.throw]

/-- An input instruction that reports the end of the input has been told so by the host. -/
theorem askByte_of_endOfInput {device : Device σ} {machine : Machine} {host after : σ}
    {interruption : Interruption} (hrunning : machine.finished = false)
    (hattempt : machine.attempt device host = (.error interruption, after)) {pc : Nat}
    (hending : machine.endingOf (machine.operandByte 0) interruption =
      .failed (.runtime pc Opcode.input.toByte (.cause .endOfInput))) :
    askByte device host = (.refused (.cause .endOfInput), after) := by
  cases interruption with
  | broken | brokenText | outOfRange => simp [endingOf] at hending
  | fault reason =>
      obtain ⟨-, hcode, rfl⟩ := Failure.runtime.inj (Ending.failed.inj hending)
      have hopcode : Opcode.ofByte? (machine.operandByte 0) = some .input := by rw [hcode]; rfl
      rcases decode_of_running hrunning with ⟨opcode, hdecode⟩ | ⟨reason, hdecode⟩
      · obtain rfl : Opcode.input = opcode :=
          Option.some.inj (hopcode.symm.trans (decode_iff.mp hdecode).2.1)
        rw [attempt_of_decode device hdecode] at hattempt
        obtain ⟨hresult, hafter⟩ := Prod.mk.inj hattempt
        exact Prod.ext (eq_refused_of_result (map_eq_error_iff.mp hresult)) hafter
      · simp only [attempt, hdecode, Prod.mk.injEq, Except.error.injEq] at hattempt
        exact absurd (hattempt.1 ▸ hdecode) (decode_ne_endOfInput hrunning hopcode)

/-- A run on a host with less input, up to the end of it, is the beginning of a run on the other
host. -/
theorem exists_waits_of_endOfInput {machine : Machine} {fuel : Nat} {limit : Int} {host once : Host}
    {input further : List UInt8} (houtputs : host.outputs = once.outputs)
    (hhost : host.Delivers input) (honce : once.Delivers (input ++ further)) {pc : Nat}
    (hfirst : (machine.run Host.device fuel limit host).ending =
      .failed (.runtime pc Opcode.input.toByte (.cause .endOfInput))) :
    ∃ completed reached, machine.runSteps Host.device completed once =
        ⟨.returned, (machine.run Host.device fuel limit host).machine, reached⟩ ∧
      Host.Waits further (machine.run Host.device fuel limit host).host reached := by
  obtain ⟨count, -, hruns⟩ := exists_runs_of_failed hfirst
  obtain ⟨completed, -, interruption, hreturned, -, hrunning, hattempt, hmachine, hending⟩ :=
    hruns.exists_interrupted (by rw [hfirst]; simp)
  -- the instructions before the last one keep step with the other host
  rcases (runs_runSteps Host.device completed machine host).stutters
      (Host.leads_stutters further) ⟨houtputs, input, _, rfl, hhost, honce⟩ with
    ⟨reached, hsame, hagain, left, _, rfl, hleft, hright⟩ | ⟨hnot, -⟩
  · have hasked := askByte_of_endOfInput hrunning hattempt (hending.symm.trans hfirst)
    obtain ⟨hreply, hafter⟩ : Machine.inputReply _ = _ ∧ _ = _ := Prod.mk.inj hasked
    rw [hreturned] at hsame
    rw [hmachine, ← hafter]
    cases left with
    | nil =>
        exact ⟨completed, reached, hsame, (Host.outputs_read _).trans hagain,
          (Host.delivers_nil_iff.mp hleft).2, hright⟩
    | cons byte left =>
        obtain ⟨hbyte, -⟩ := Host.delivers_cons_iff.mp hleft
        cases hbyte.symm.trans hreply
  · exact absurd hreturned hnot

/-- Running to the end of the input, putting a reader on top and running again comes to what one run
on the input with the bytes of the reader behind it comes to. -/
theorem run_pushReader {machine : Machine} {fuel : Nat} {limit : Int} {host once : Host}
    {input : List UInt8} {reader : Reader} (houtputs : host.outputs = once.outputs)
    (hhost : host.Delivers input) (honce : once.Delivers (input ++ reader.bytes))
    (hreader : reader.ending = .cause .endOfFile) {pc : Nat}
    (hfirst : (machine.run Host.device fuel limit host).ending =
      .failed (.runtime pc Opcode.input.toByte (.cause .endOfInput)))
    (hwhole : (machine.run Host.device fuel 0 once).ending ≠ .outOfFuel) :
    let first := machine.run Host.device fuel limit host
    let second := first.machine.run Host.device fuel 0 (first.host.pushReader (some reader))
    let whole := machine.run Host.device fuel 0 once
    second.ending = whole.ending ∧ second.machine = whole.machine ∧
      second.host.outputs = whole.host.outputs ∧
      ∃ rest, rest <:+ input ++ reader.bytes ∧ second.host.Delivers rest ∧
        whole.host.Delivers rest := by
  intro first second whole
  obtain ⟨completed, reached, hstart, hsame, hended, hfurther⟩ :=
    exists_waits_of_endOfInput houtputs hhost honce hfirst
  rw [run_of_nonpos (by omega)] at hwhole
  obtain ⟨hplain, hwholeEnded⟩ := ended_of_orOutOfFuel hwhole
  -- the rest of the whole run is a run from where the first one has stopped
  have hrest := runSteps_of_ended_returned hwholeEnded hstart
  have hwholeSteps : whole = first.machine.runSteps Host.device fuel reached := by
    rw [hrest, ← hplain]
    exact run_of_nonpos (by omega) fuel machine once
  have hpaired : Host.Paired (fun left right => right = left ∧ left <:+ input ++ reader.bytes)
      (first.host.pushReader (some reader)) reached :=
    ⟨hsame, _, _, ⟨rfl, List.suffix_append input _⟩, hended.pushReader hreader, hfurther⟩
  rcases (runs_runSteps Host.device fuel first.machine _).stutters (Host.same_stutters _) hpaired
    with ⟨next, hagain, hnext⟩ | ⟨-, _, _, -, hnever⟩
  · rw [hagain] at hwholeSteps
    have hsecond : second = first.machine.runSteps Host.device fuel
        (first.host.pushReader (some reader)) := by
      refine (run_of_nonpos (by omega) fuel _ _).trans (orOutOfFuel_of_ended ?_)
      rw [← hrest, hagain] at hwholeEnded
      exact hwholeEnded
    obtain ⟨houtputs, _, rest, ⟨rfl, hsuffix⟩, hleft, hright⟩ := hnext
    rw [hsecond, hwholeSteps]
    exact ⟨rfl, rfl, houtputs, rest, hsuffix, hleft, hright⟩
  · exact hnever.elim

/-- Failures of the host that come and go do not show. Whatever calls are refused before they reach
the host, runs with any limits, again after each refusal, end as the run without refusals ends, with
the same machine and the same host, if that run ends; and there are enough of them when they
outnumber its instructions and the refusals. The device is any, so also one that keeps what it is
asked for and sent.

The end of the input is such a failure: when a run has come to it, putting a reader on top and
running again comes to what one run on all the input comes to. -/
theorem runAgain_transparent (machine : Machine) (fuel : Nat) :
    (∀ {σ : Type} (device : Device σ) (host : σ) (pattern : List (Option Failure))
        (limits : List Int),
      let plain := machine.run device fuel 0 host
      let again := machine.runAgain device fuel limits ⟨host, pattern, 0⟩
      plain.ending ≠ .outOfFuel →
        (again.Ended → again.ending = plain.ending ∧ again.machine = plain.machine ∧
          again.host.host = plain.host) ∧
        (plain.machine.executed + pattern.countP Option.isSome <
          machine.executed + limits.length → again.Ended)) ∧
    (∀ (host once : Host) (input : List UInt8) (reader : Reader) (limit : Int) (pc : Nat),
      let first := machine.run Host.device fuel limit host
      let second := first.machine.run Host.device fuel 0 (first.host.pushReader (some reader))
      let whole := machine.run Host.device fuel 0 once
      host.outputs = once.outputs → host.Delivers input → once.Delivers (input ++ reader.bytes) →
      reader.ending = .cause .endOfFile →
      first.ending = .failed (.runtime pc Opcode.input.toByte (.cause .endOfInput)) →
      whole.ending ≠ .outOfFuel →
        second.ending = whole.ending ∧ second.machine = whole.machine ∧
          second.host.outputs = whole.host.outputs ∧
          ∃ rest, rest <:+ input ++ reader.bytes ∧ second.host.Delivers rest ∧
            whole.host.Delivers rest) := by
  refine ⟨?_, ?_⟩
  · intro σ device host pattern limits plain again hplain
    have hrun : plain = (machine.runSteps device fuel host).orOutOfFuel :=
      run_of_nonpos (by omega) fuel machine host
    rw [hrun] at hplain ⊢
    obtain ⟨hsteps, hended⟩ := ended_of_orOutOfFuel hplain
    obtain ⟨-, hends⟩ : _ ∧ (_ → again.Ended) := runAgain_reaches limits hended
    rw [hsteps]
    refine ⟨fun hagain => ?_, hends⟩
    have hsame : machine.runSteps device fuel host =
        ⟨again.ending, again.machine, again.host.host⟩ := runAgain_of_ended hended hagain
    rw [hsame]
    exact ⟨rfl, rfl, rfl⟩
  · intro host once input reader limit pc first second whole houtputs hhost honce hreader hfirst
      hwhole
    exact run_pushReader houtputs hhost honce hreader hfirst hwhole

/-- A program that twice writes what it reads: on a host that fails on the way, and on an input that
is extended when it has come to its end. -/
theorem runAgain_transparent_of_echo :
    let machine : Machine :=
      ⟨.ofCode #[41, 0, 44, 0, 41, 0, 44, 0], 0, #[0], .new 1, .unset, 0⟩
    let channel : OutputChannel := ⟨.limited none, [], []⟩
    let host (input : List UInt8) : Host :=
      ⟨.bytes input, [], channel, channel, .cause (.other "full"), []⟩
    let reader : Reader := ⟨true, [⟨0, 9⟩], .cause .endOfFile, 0, false, 0, none⟩
    let pattern := [some (.cause .endOfFile), none, some (.cause (.other "busy"))]
    let whole := machine.run Host.device 5 0 (host [7, 9])
    let again := machine.runAgain Host.device 5 [0, 2, 1, 0, 0, 0, 0] ⟨host [7, 9], pattern, 0⟩
    let first := machine.run Host.device 5 3 (host [7])
    let second := first.machine.run Host.device 5 0 (first.host.pushReader (some reader))
    whole.host.output.received = [[9], [7]] ∧
      (again.machine = whole.machine ∧ again.host.host = whole.host) ∧
      (second.machine = whole.machine ∧ second.host.outputs = whole.host.outputs) := by
  intro machine channel host reader pattern
  obtain ⟨hfailing, hresuming⟩ := runAgain_transparent machine 5
  have hwhole : (machine.run Host.device 5 0 (host [7, 9])).ending ≠ .outOfFuel := by
    decide +kernel
  obtain ⟨hsame, hends⟩ := hfailing Host.device (host [7, 9]) pattern [0, 2, 1, 0, 0, 0, 0] hwhole
  obtain ⟨-, hmachine, hhost⟩ := hsame (hends (by decide +kernel))
  obtain ⟨-, hsecond, houtputs, -⟩ := hresuming (host [7]) (host [7, 9]) [7] reader 3 4 rfl
    ((host []).delivers_bytes [7]) ((host []).delivers_bytes [7, 9]) rfl (by decide +kernel) hwhole
  exact ⟨by decide +kernel, ⟨hmachine, hhost⟩, hsecond, houtputs⟩

end Machine

end Octet
