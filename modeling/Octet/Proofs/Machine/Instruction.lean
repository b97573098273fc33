import Mathlib.Tactic.Common
import Octet.Machine.Step

/-! # What each instruction does

Decoding an instruction establishes that its operands are there. From then on they
can be read by total functions, and what an instruction sets out to do is a
function of the machine and the opcode. The main statement says that a step comes
to just that, and that a step which is interrupted leaves the machine as it was.
No other module looks into the actions of an instruction.
-/

namespace Octet

theorem map_eq_ok_iff {ε α β : Type} {result : Except ε α} {change : α → β} {value : β} :
    result.map change = .ok value ↔ ∃ found, result = .ok found ∧ change found = value := by
  cases result <;> simp [Except.map]

theorem map_eq_error_iff {ε α β : Type} {result : Except ε α} {change : α → β} {cause : ε} :
    result.map change = .error cause ↔ result = .error cause := by
  cases result <;> simp [Except.map]

/-- The operands of the given kinds, stored one after the other, with their positions. -/
def operandPositions (position : Nat) : List OperandKind → List (OperandKind × Nat)
  | [] => []
  | kind :: kinds => (kind, position) :: operandPositions (position + kind.size) kinds

/-- Operands lie one after the other inside the bytes that they take together. -/
theorem le_of_mem_operandPositions {start : Nat} {kinds : List OperandKind}
    {operand : OperandKind × Nat} (hmem : operand ∈ operandPositions start kinds) :
    start ≤ operand.2 ∧
      operand.2 + operand.1.size ≤ start + OperandKind.totalSize kinds := by
  induction kinds generalizing start with
  | nil => cases hmem
  | cons kind kinds ih =>
      simp only [OperandKind.totalSize]
      rcases List.mem_cons.mp hmem with rfl | hrest
      · dsimp only
        omega
      · have hbounds := ih hrest
        omega

/-- The branch target at a position. -/
def targetAt (code : Array UInt8) (position : Nat) : Nat :=
  addressOfBytes (code.getD position 0) (code.getD (position + 1) 0)

/-- The branch target of the instruction at an offset, if it has one, is one that `good` selects. -/
def BranchesTo (code : Array UInt8) (good : Nat → Prop) (offset : Nat) : Prop :=
  ∀ opcode, Opcode.ofByte? (code.getD offset 0) = some opcode →
    ∀ operand ∈ operandPositions (offset + 1) opcode.operands, operand.1 = .label →
      good (targetAt code operand.2)

theorem BranchesTo.imp {code : Array UInt8} {good better : Nat → Prop} {offset : Nat}
    (hbranches : BranchesTo code good offset) (himp : ∀ target, good target → better target) :
    BranchesTo code better offset :=
  fun opcode hopcode operand hoperand hkind =>
    himp _ (hbranches opcode hopcode operand hoperand hkind)

/-- What an instruction sets out to do in a machine, or in anything else with states `S`: to settle
on a state or a cause without a word to the host, to go on with a byte that the host is asked for,
or to go on after the host is sent a text. -/
inductive Intent (S : Type) where
  | settle (result : Except Cause S)
  | read (resume : UInt8 → S)
  | write (channel : Channel) (text : List UInt8) (resume : S)

namespace Machine

variable {σ α β : Type}

/-! ### Reading operands -/

/-- The byte a number of bytes after the current position, zero outside of the program. -/
def operandByte (machine : Machine) (distance : Nat) : UInt8 :=
  machine.program.code.getD (machine.pc + distance) 0

/-- The branch target a number of bytes after the current position. -/
def operandTarget (machine : Machine) (distance : Nat) : Nat :=
  addressOfBytes (machine.operandByte distance) (machine.operandByte (distance + 1))

/-- The value of the register that the operand a number of bytes further on names. -/
def operandRegister (machine : Machine) (distance : Nat) : UInt8 :=
  machine.registers.getD (machine.operandByte distance).toNat 0

/-- The value that the operand a number of bytes further on gives. -/
def operandValue (machine : Machine) : Mode → Nat → UInt8
  | .register, distance => machine.operandRegister distance
  | .immediate, distance => machine.operandByte distance

/-- The machine with a value in the register that the operand a number of bytes further on names. -/
def withRegister (machine : Machine) (distance : Nat) (value : UInt8) : Machine :=
  { machine with
    registers := machine.registers.setIfInBounds (machine.operandByte distance).toNat value }

/-- The operand a number of bytes further on names a register of the machine. -/
def NamesRegister (machine : Machine) (distance : Nat) : Prop :=
  machine.pc + distance < machine.program.size ∧
    (machine.operandByte distance).toNat < machine.registers.size

theorem byteAt_of_lt {machine : Machine} {distance : Nat}
    (hlt : machine.pc + distance < machine.program.size) :
    machine.byteAt distance = .ok (machine.operandByte distance) := by
  have hsize : machine.pc + distance < machine.program.code.size := hlt
  simp [byteAt, operandByte, hsize]

theorem lt_of_byteAt {machine : Machine} {distance : Nat} {byte : UInt8}
    (hbyte : machine.byteAt distance = .ok byte) :
    machine.pc + distance < machine.program.size ∧ machine.operandByte distance = byte := by
  unfold byteAt at hbyte
  split at hbyte
  next found hfound =>
    obtain ⟨hlt, -⟩ := Array.getElem?_eq_some_iff.mp hfound
    simp only [Except.ok.injEq] at hbyte
    exact ⟨hlt, by simp [operandByte, Array.getD_eq_getD_getElem?, hfound, hbyte]⟩
  next => cases hbyte

/-- An operand that names a register of the machine gives its value. -/
theorem registerAt_of_names {machine : Machine} {distance : Nat}
    (hnames : machine.NamesRegister distance) :
    machine.registerAt distance = .ok (machine.operandRegister distance) := by
  obtain ⟨hlt, hindex⟩ := hnames
  simp [registerAt, byteAt_of_lt hlt, operandRegister, bind, Except.bind, hindex, pure,
    Except.pure]

/-- An operand that names a register of the machine allows for a value to be stored there. -/
theorem storeAt_of_names {machine : Machine} {distance : Nat}
    (hnames : machine.NamesRegister distance) (value : UInt8) :
    machine.storeAt distance value = .ok (machine.withRegister distance value) := by
  obtain ⟨hlt, hindex⟩ := hnames
  simp [storeAt, byteAt_of_lt hlt, withRegister, bind, Except.bind, hindex, pure, Except.pure]

theorem addressAt_of_lt {machine : Machine} {distance : Nat}
    (hlt : machine.pc + (distance + 1) < machine.program.size) :
    machine.addressAt distance = .ok (machine.operandTarget distance) := by
  have hlow : machine.pc + distance < machine.program.size := by omega
  simp [addressAt, byteAt_of_lt hlow, byteAt_of_lt hlt, operandTarget, bind, Except.bind, pure,
    Except.pure]

/-! ### Decoding -/

/-- A register passes the check exactly if the machine has it. -/
theorem checkOperand_register_iff {machine : Machine} {distance : Nat} :
    machine.checkOperand distance .register = .ok () ↔ machine.NamesRegister distance := by
  constructor
  · intro hcheck
    cases hbyte : machine.byteAt distance with
    | error interruption => simp [checkOperand, hbyte, bind, Except.bind] at hcheck
    | ok index =>
        obtain ⟨hlt, hindex⟩ := lt_of_byteAt hbyte
        refine ⟨hlt, ?_⟩
        rw [hindex]
        by_contra hnot
        simp [checkOperand, hbyte, bind, Except.bind, hnot, throw, throwThe,
          MonadExceptOf.throw] at hcheck
  · rintro ⟨hlt, hindex⟩
    simp [checkOperand, byteAt_of_lt hlt, bind, Except.bind, hindex, pure, Except.pure]

/-- A branch target passes the check exactly if it is there and is one that the program allows for.
-/
theorem checkOperand_label_iff {machine : Machine} {distance : Nat} :
    machine.checkOperand distance .label = .ok () ↔
      machine.pc + (distance + 1) < machine.program.size ∧
        machine.program.isTarget (machine.operandTarget distance) = true := by
  constructor
  · intro hcheck
    cases haddress : machine.addressAt distance with
    | error interruption => simp [checkOperand, haddress, bind, Except.bind] at hcheck
    | ok target =>
        have hlt : machine.pc + (distance + 1) < machine.program.size := by
          cases hlow : machine.byteAt distance with
          | error interruption => simp [addressAt, hlow, bind, Except.bind] at haddress
          | ok low =>
              cases hhigh : machine.byteAt (distance + 1) with
              | error interruption => simp [addressAt, hlow, hhigh, bind, Except.bind] at haddress
              | ok high => exact (lt_of_byteAt hhigh).1
        rw [addressAt_of_lt hlt, Except.ok.injEq] at haddress
        refine ⟨hlt, ?_⟩
        by_contra hnot
        simp [checkOperand, addressAt_of_lt hlt, bind, Except.bind, hnot, throw, throwThe,
          MonadExceptOf.throw] at hcheck
  · rintro ⟨hlt, htarget⟩
    simp [checkOperand, addressAt_of_lt hlt, bind, Except.bind, htarget, pure, Except.pure]

/-- Operands pass the check exactly if each of them does. -/
theorem checkOperands_iff {machine : Machine} {distance : Nat} {kinds : List OperandKind} :
    machine.checkOperands distance kinds = .ok () ↔
      ∀ operand ∈ operandPositions distance kinds,
        machine.checkOperand operand.2 operand.1 = .ok () := by
  induction kinds generalizing distance with
  | nil => simp [checkOperands, operandPositions, pure, Except.pure]
  | cons kind kinds ih =>
      simp only [operandPositions, List.forall_mem_cons, ← ih]
      cases hfirst : machine.checkOperand distance kind with
      | error interruption => simp [checkOperands, hfirst, bind, Except.bind]
      | ok value => simp [checkOperands, hfirst, bind, Except.bind]

/-- An instruction is decoded exactly if its code names an opcode, its bytes are all there and its
operands pass the check. -/
theorem decode_iff {machine : Machine} {opcode : Opcode} :
    machine.decode = .ok opcode ↔
      machine.pc + opcode.size ≤ machine.program.size ∧
        Opcode.ofByte? (machine.operandByte 0) = some opcode ∧
        ∀ operand ∈ operandPositions 1 opcode.operands,
          machine.checkOperand operand.2 operand.1 = .ok () := by
  rw [← checkOperands_iff]
  constructor
  · intro hdecode
    cases hbyte : machine.byteAt 0 with
    | error interruption => simp [decode, hbyte, bind, Except.bind] at hdecode
    | ok byte =>
        obtain ⟨-, rfl⟩ := lt_of_byteAt hbyte
        simp only [decode, hbyte, bind, Except.bind] at hdecode
        split at hdecode
        next => cases hdecode
        next found hfound =>
          split at hdecode
          next => cases hdecode
          next hfits =>
            cases hcheck : machine.checkOperands 1 found.operands with
            | error interruption => simp [hcheck] at hdecode
            | ok value =>
                simp only [hcheck, pure, Except.pure, Except.ok.injEq] at hdecode
                subst hdecode
                exact ⟨by omega, hfound, hcheck⟩
  · rintro ⟨hfits, hopcode, hcheck⟩
    have hlt : machine.pc + 0 < machine.program.size := by
      have : 0 < opcode.size := by unfold Opcode.size; omega
      omega
    have hnot : ¬ machine.program.size < machine.pc + opcode.size := by omega
    simp [decode, byteAt_of_lt hlt, bind, Except.bind, hopcode, hnot, hcheck, pure, Except.pure]

section Decoded

variable {machine : Machine} {opcode : Opcode}

/-- Every register that a decoded instruction names is there. -/
theorem namesRegister_of_decode (hdecode : machine.decode = .ok opcode) {distance : Nat}
    (hmem : (OperandKind.register, distance) ∈ operandPositions 1 opcode.operands) :
    machine.NamesRegister distance :=
  checkOperand_register_iff.mp ((decode_iff.mp hdecode).2.2 _ hmem)

theorem namesRegister_first (hdecode : machine.decode = .ok opcode) {kinds : List OperandKind}
    (hoperands : opcode.operands = .register :: kinds) : machine.NamesRegister 1 :=
  namesRegister_of_decode hdecode (by simp [hoperands, operandPositions])

/-- Every branch target of a decoded instruction is one. -/
theorem isTarget_of_decode (hdecode : machine.decode = .ok opcode) {distance : Nat}
    (hmem : (OperandKind.label, distance) ∈ operandPositions 1 opcode.operands) :
    machine.pc + (distance + 1) < machine.program.size ∧
      machine.program.isTarget (machine.operandTarget distance) = true :=
  checkOperand_label_iff.mp ((decode_iff.mp hdecode).2.2 _ hmem)

/-- Every operand of a decoded instruction that gives a value can be read. -/
theorem valueAt_of_decode (hdecode : machine.decode = .ok opcode) {mode : Mode} {distance : Nat}
    (hmem : (mode.kind, distance) ∈ operandPositions 1 opcode.operands) :
    machine.valueAt mode distance = .ok (machine.operandValue mode distance) := by
  cases mode with
  | register => exact registerAt_of_names (namesRegister_of_decode hdecode hmem)
  | immediate =>
      have hend := le_of_mem_operandPositions hmem
      have hfits := (decode_iff.mp hdecode).1
      simp only [Mode.kind, OperandKind.size] at hend
      unfold Opcode.size at hfits
      exact byteAt_of_lt (by omega)

/-- The one operand of an instruction gives a value. -/
theorem valueAt_only (hdecode : machine.decode = .ok opcode) {mode : Mode}
    (hoperands : opcode.operands = [mode.kind]) :
    machine.valueAt mode 1 = .ok (machine.operandValue mode 1) :=
  valueAt_of_decode hdecode (by simp [hoperands, operandPositions])

/-- The second of two operands gives a value. -/
theorem valueAt_second (hdecode : machine.decode = .ok opcode) {mode : Mode}
    (hoperands : opcode.operands = [.register, mode.kind]) :
    machine.valueAt mode 2 = .ok (machine.operandValue mode 2) :=
  valueAt_of_decode hdecode (by simp [hoperands, operandPositions, OperandKind.size])

end Decoded

/-! ### Actions -/

/-- After an action that succeeds, the next one goes on from where it ended. -/
theorem run_bind_ok {action : Action σ α} {next : α → Action σ β} {before after : Attached σ}
    {value : α} (haction : action.run before = .ok value after) :
    (action >>= next).run before = (next value).run after := by
  simp only [EStateM.run_bind, haction]

/-- An action that is interrupted ends all that would follow. -/
theorem run_bind_error {action : Action σ α} {next : α → Action σ β} {before after : Attached σ}
    {interruption : Interruption} (haction : action.run before = .error interruption after) :
    (action >>= next).run before = .error interruption after := by
  simp only [EStateM.run_bind, haction]

theorem run_inspect_ok {question : Machine → Except Interruption α} {machine : Machine} {value : α}
    (hquestion : question machine = .ok value) (host : σ) :
    (inspect question).run ⟨machine, host⟩ = .ok value ⟨machine, host⟩ := by
  simp only [inspect, EStateM.run, hquestion]

theorem run_inspect_error {question : Machine → Except Interruption α} {machine : Machine}
    {interruption : Interruption} (hquestion : question machine = .error interruption) (host : σ) :
    (inspect question).run ⟨machine, host⟩ = .error interruption ⟨machine, host⟩ := by
  simp only [inspect, EStateM.run, hquestion]

theorem run_update_ok {change : Machine → Except Interruption Machine} {machine next : Machine}
    (hchange : change machine = .ok next) (host : σ) :
    (update change).run ⟨machine, host⟩ = .ok () ⟨next, host⟩ := by
  simp only [update, EStateM.run, hchange]

/-- The last two actions of most instructions: a register is set and the position moves on. -/
theorem run_store_advance {machine : Machine} {distance : Nat}
    (hnames : machine.NamesRegister distance) (value : UInt8) (size : Nat) (host : σ) :
    (do update (storeAt · distance value); advance size : Action σ Unit).run ⟨machine, host⟩ =
      .ok () ⟨(machine.withRegister distance value).complete (machine.pc + size), host⟩ := by
  rw [run_bind_ok (run_update_ok (storeAt_of_names hnames value) host)]
  rfl

/-! ### Intents -/

/-- What the decoded instruction at the current position sets out to do. -/
def intent (machine : Machine) : Opcode → Intent Machine
  | .nop => .settle (.ok (machine.complete (machine.pc + 1)))
  | .halt => .settle (.ok (machine.complete machine.program.size))
  | .binary op mode =>
    .settle ((op.apply (machine.operandRegister 1) (machine.operandValue mode 2)).map fun value =>
      (machine.withRegister 1 value).complete (machine.pc + 3))
  | .unary op =>
    .settle (.ok
      ((machine.withRegister 1 (op.apply (machine.operandRegister 1))).complete (machine.pc + 2)))
  | .push mode =>
    .settle ((machine.stack.push (machine.operandValue mode 1)).map fun stack =>
      { machine with stack }.complete (machine.pc + 2))
  | .pop =>
    .settle (machine.stack.pop.map fun (value, stack) =>
      ({ machine with stack }.withRegister 1 value).complete (machine.pc + 2))
  | .peek =>
    .settle (machine.stack.peek.map fun value =>
      (machine.withRegister 1 value).complete (machine.pc + 2))
  | .drop =>
    .settle (machine.stack.pop.map fun (_, stack) =>
      { machine with stack }.complete (machine.pc + 1))
  | .compare mode =>
    .settle (.ok ({ machine with
      flag := .ofCompare (machine.operandRegister 1) (machine.operandValue mode 2) }.complete
        (machine.pc + 3)))
  | .branch condition =>
    .settle (.ok (machine.complete
      (if condition.holds machine.flag then machine.operandTarget 1 else machine.pc + 3)))
  | .input => .read fun value => (machine.withRegister 1 value).complete (machine.pc + 2)
  | .write channel style mode =>
    .write channel (style.text (machine.operandValue mode 1)) (machine.complete (machine.pc + 2))

end Machine

namespace Intent

variable {σ S : Type}

/-- What becomes of an intent. -/
def perform (device : Device σ) (host : σ) : Intent S → Except Interruption S × σ
  | settle result => (Machine.faultOf result, host)
  | read resume =>
    let (reply, host) := Machine.askByte device host
    (reply.result.map resume, host)
  | write channel text resume =>
    let (reply, host) := device.write channel text host
    (reply.result.map fun _ => resume, host)

end Intent

namespace Machine

variable {σ : Type}

/-- What one instruction comes to, as a function of the machine before it. -/
def attempt (device : Device σ) (machine : Machine) (host : σ) :
    Except Interruption Machine × σ :=
  match machine.decode with
  | .error interruption => (.error interruption, host)
  | .ok opcode => (machine.intent opcode).perform device host

/-- An action that either ends in a new machine, or leaves the machine as it was. -/
def conclude (machine : Machine) :
    Except Interruption Machine × σ → EStateM.Result Interruption (Attached σ) Unit
  | (.ok next, host) => .ok () ⟨next, host⟩
  | (.error interruption, host) => .error interruption ⟨machine, host⟩

section Parts

variable {machine : Machine} {host : σ}

/-- An instruction with one operand starts by reading it. -/
theorem run_operand {opcode : Opcode} {mode : Mode} (hdecode : machine.decode = .ok opcode)
    (hoperands : opcode.operands = [mode.kind]) (next : UInt8 → Action σ Unit) :
    (inspect (valueAt · mode 1) >>= next).run ⟨machine, host⟩ =
      (next (machine.operandValue mode 1)).run ⟨machine, host⟩ :=
  run_bind_ok (run_inspect_ok (valueAt_only hdecode hoperands) host)

/-- An instruction with two operands starts by reading both. -/
theorem run_operands {opcode : Opcode} {mode : Mode} (hdecode : machine.decode = .ok opcode)
    (hoperands : opcode.operands = [.register, mode.kind]) (next : UInt8 → UInt8 → Action σ Unit) :
    (do
      let left ← inspect (registerAt · 1)
      let right ← inspect (valueAt · mode 2)
      next left right : Action σ Unit).run ⟨machine, host⟩ =
      (next (machine.operandRegister 1) (machine.operandValue mode 2)).run ⟨machine, host⟩ := by
  have hfirst := registerAt_of_names (namesRegister_first hdecode hoperands)
  have hsecond := valueAt_second hdecode hoperands
  rw [run_bind_ok (run_inspect_ok hfirst host), run_bind_ok (run_inspect_ok hsecond host)]

/-- What can fail is looked up before anything is changed: the instruction ends as the rest of it
does, or with the cause. -/
theorem run_inspect_faultOf {α : Type} {question : Machine → Except Cause α}
    {next : α → Action σ Unit} {finish : α → Machine}
    (hnext : ∀ value, (next value).run ⟨machine, host⟩ = .ok () ⟨finish value, host⟩) :
    (inspect (fun machine => faultOf (question machine)) >>= next).run ⟨machine, host⟩ =
      machine.conclude (faultOf ((question machine).map finish), host) := by
  cases hquestion : question machine with
  | ok value =>
      rw [run_bind_ok (run_inspect_ok (by rw [hquestion]; rfl) host)]
      exact hnext value
  | error cause =>
      rw [run_bind_error (run_inspect_error (by rw [hquestion]; rfl) host)]
      rfl

/-- Taking a value is the first change, and it is made only if there is a value. -/
theorem run_takeTop {next : UInt8 → Action σ Unit} {finish : UInt8 × Stack → Machine}
    (hnext : ∀ value stack,
      (next value).run ⟨{ machine with stack }, host⟩ = .ok () ⟨finish (value, stack), host⟩) :
    (takeTop >>= next).run ⟨machine, host⟩ =
      machine.conclude (faultOf (machine.stack.pop.map finish), host) := by
  cases hpop : machine.stack.pop with
  | ok popped =>
      obtain ⟨value, stack⟩ := popped
      have htake : (takeTop : Action σ UInt8).run ⟨machine, host⟩ =
          .ok value ⟨{ machine with stack }, host⟩ := by
        simp only [takeTop, EStateM.run, hpop, faultOf]
      rw [run_bind_ok htake]
      exact hnext value stack
  | error cause =>
      have htake : (takeTop : Action σ UInt8).run ⟨machine, host⟩ =
          .error (interruptionOf cause) ⟨machine, host⟩ := by
        simp only [takeTop, EStateM.run, hpop, faultOf]
      rw [run_bind_error htake]
      rfl

/-- The host is called before anything is changed. -/
theorem run_consult {α : Type} {call : σ → Reply α × σ} {next : α → Action σ Unit}
    {finish : α → Machine}
    (hnext : ∀ value, (next value).run ⟨machine, (call host).2⟩ =
      .ok () ⟨finish value, (call host).2⟩) :
    (consult call >>= next).run ⟨machine, host⟩ =
      machine.conclude ((call host).1.result.map finish, (call host).2) := by
  cases hreply : (call host).1.result with
  | ok value =>
      have hconsult : (consult call).run ⟨machine, host⟩ = .ok value ⟨machine, (call host).2⟩ := by
        simp only [consult, EStateM.run, hreply]
      rw [run_bind_ok hconsult]
      exact hnext value
  | error interruption =>
      have hconsult : (consult call).run ⟨machine, host⟩ =
          .error interruption ⟨machine, (call host).2⟩ := by
        simp only [consult, EStateM.run, hreply]
      rw [run_bind_error hconsult]
      rfl

end Parts

/-- The actions of a decoded instruction amount to its intent. The order of the actions matters
here: all that can fail comes before the first change, except for reads and writes of registers
that decoding has shown to be there. -/
theorem run_execute (device : Device σ) {machine : Machine} {opcode : Opcode}
    (hdecode : machine.decode = .ok opcode) (host : σ) :
    (execute device opcode).run ⟨machine, host⟩ =
      machine.conclude ((machine.intent opcode).perform device host) := by
  cases opcode with
  | nop => rfl
  | halt => rfl
  | binary op mode =>
      have hfirst := namesRegister_first hdecode rfl
      simp only [execute, intent]
      rw [run_operands hdecode rfl]
      exact run_inspect_faultOf fun value => run_store_advance hfirst value 3 host
  | unary op =>
      have hfirst := namesRegister_first hdecode rfl
      simp only [execute, intent]
      rw [run_bind_ok (run_inspect_ok (registerAt_of_names hfirst) host)]
      exact run_store_advance hfirst _ 2 host
  | push mode =>
      simp only [execute, intent]
      rw [run_operand hdecode rfl]
      exact run_inspect_faultOf fun _ => rfl
  | pop =>
      have hfirst := namesRegister_first hdecode rfl
      exact run_takeTop fun value stack =>
        run_store_advance (show { machine with stack }.NamesRegister 1 from hfirst) value 2 host
  | peek =>
      have hfirst := namesRegister_first hdecode rfl
      exact run_inspect_faultOf fun value => run_store_advance hfirst value 2 host
  | drop => exact run_takeTop fun _ _ => rfl
  | compare mode =>
      simp only [execute, intent]
      rw [run_operands hdecode rfl]
      rfl
  | branch condition =>
      have htarget := isTarget_of_decode hdecode
        (show (OperandKind.label, 1) ∈ operandPositions 1 (Opcode.branch condition).operands by
          simp [operandPositions, Opcode.operands])
      have hflag : (inspect fun machine => .ok machine.flag : Action σ Flag).run ⟨machine, host⟩ =
          .ok machine.flag ⟨machine, host⟩ := rfl
      simp only [execute, intent]
      rw [run_bind_ok hflag]
      split
      next =>
        rw [run_bind_ok (run_inspect_ok (addressAt_of_lt htarget.1) host)]
        rfl
      next => rfl
  | input =>
      have hfirst := namesRegister_first hdecode rfl
      exact run_consult fun value => run_store_advance hfirst value 2 _
  | write channel style mode =>
      simp only [execute, intent]
      rw [run_operand hdecode rfl]
      exact run_consult fun _ => rfl

/-- A step comes to what the instruction attempts. In particular an instruction that is interrupted
leaves the machine as it was. -/
theorem run_step (device : Device σ) (machine : Machine) (host : σ) :
    (step device).run ⟨machine, host⟩ = machine.conclude (machine.attempt device host) := by
  unfold step attempt
  cases hdecode : machine.decode with
  | error interruption =>
      rw [run_bind_error (run_inspect_error hdecode host)]
      rfl
  | ok opcode =>
      rw [run_bind_ok (run_inspect_ok hdecode host)]
      exact run_execute device hdecode host

end Machine

end Octet
