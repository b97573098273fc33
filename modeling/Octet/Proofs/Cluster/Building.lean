import Octet.Proofs.Cluster.Builder
import Octet.Proofs.Cluster.Queries

/-! # Reading back what was built

A program under construction has a history: the instructions that were appended and the
targets that were overwritten since it was last empty. Requests that were refused are
not part of it. As long as only targets of branches are overwritten, the history can be
read back from the bytes: the table of the finished program holds the offsets where
instructions were appended, and each of them stands there as it was appended, but for
the last address that was written into it.
-/

namespace Octet

/-- A scan goes on in a program where its instructions have the same sizes. -/
theorem Scans.extend {code other : Array UInt8} {pc stop last : Nat} {offsets more : List Nat}
    (hscans : Scans code pc offsets stop)
    (hsame : ∀ offset ∈ offsets, instructionSize? other offset = instructionSize? code offset)
    (hrest : Scans other stop more last) : Scans other pc (offsets ++ more) last := by
  induction hscans with
  | stop => exact hrest
  | next hsize _ ih =>
      obtain ⟨hfirst, hothers⟩ := List.forall_mem_cons.mp hsame
      exact .next (hfirst.trans hsize) (ih hothers hrest)

theorem instructionSize?_size (code : Array UInt8) : instructionSize? code code.size = none := by
  simp [instructionSize?]

namespace Builder

/-! ### Histories -/

/-- An instruction as it was appended. -/
structure Appended where
  /-- The size of the program before it. -/
  start : Nat
  code : UInt8
  operands : List UInt8
  deriving DecidableEq, Repr

/-- Whether the instruction has a target that can be overwritten. -/
def Appended.isBranch (instruction : Appended) : Bool :=
  (Opcode.ofByte? instruction.code).any Opcode.isBranch

/-- What a request did to a program. -/
inductive Event where
  | appended (instruction : Appended)
  /-- The two bytes at a position were overwritten with an address. -/
  | overwritten (position address : Nat)
  deriving DecidableEq, Repr

/-- The history of a program after a request. -/
def record (builder : Builder) (events : List Event) : Request → List Event
  | .emit code operands =>
    match (builder.emit code operands).1 with
    | .ok _ => events ++ [.appended ⟨builder.code.size, code, operands⟩]
    | .error _ => events
  | .patch position address =>
    match (builder.patch position address).1 with
    | .done => events ++ [.overwritten position.toInt.toNat address.toInt.toNat]
    | .refused _ | .escaped => events
  | .reset | .freeze => []

/-- The history of a program after some requests. -/
def history (builder : Builder) (events : List Event) : List Request → List Event
  | [] => events
  | request :: requests =>
    (builder.perform request).history (builder.record events request) requests

/-- The instructions of a history, in order. -/
def appendedIn (events : List Event) : List Appended :=
  events.filterMap fun
    | .appended instruction => some instruction
    | .overwritten _ _ => none

/-- The address that was last written at a position. -/
def lastAddress? (events : List Event) (position : Nat) : Option Nat :=
  (events.filterMap fun
    | .overwritten found address => if found = position then some address else none
    | .appended _ => none).getLast?

/-- A request does not overwrite anything but the target of a branch that was appended. -/
def HitsTarget (events : List Event) : Request → Prop
  | .patch position _ => ∃ instruction ∈ appendedIn events,
      instruction.isBranch = true ∧ position.toInt = instruction.start + 1
  | .emit _ _ | .reset | .freeze => True

/-- None of some requests overwrites anything but the target of a branch that was appended before it.
-/
def HitsTargets (builder : Builder) (events : List Event) : List Request → Prop
  | [] => True
  | request :: requests => HitsTarget events request ∧
      (builder.perform request).HitsTargets (builder.record events request) requests

instance (events : List Event) : DecidablePred (HitsTarget events)
  | .patch position _ => inferInstanceAs (Decidable (∃ instruction ∈ appendedIn events,
      instruction.isBranch = true ∧ position.toInt = instruction.start + 1))
  | .emit _ _ | .reset | .freeze => .isTrue trivial

instance decidableHitsTargets (builder : Builder) (events : List Event) :
    (requests : List Request) → Decidable (builder.HitsTargets events requests)
  | [] => .isTrue trivial
  | request :: requests =>
    have := decidableHitsTargets (builder.perform request) (builder.record events request) requests
    inferInstanceAs (Decidable (HitsTarget events request ∧ _))

theorem appendedIn_appended (events : List Event) (instruction : Appended) :
    appendedIn (events ++ [.appended instruction]) = appendedIn events ++ [instruction] := by
  simp [appendedIn]

theorem appendedIn_overwritten (events : List Event) (position address : Nat) :
    appendedIn (events ++ [.overwritten position address]) = appendedIn events := by
  simp [appendedIn]

theorem lastAddress?_appended (events : List Event) (instruction : Appended) (position : Nat) :
    lastAddress? (events ++ [.appended instruction]) position = lastAddress? events position := by
  simp [lastAddress?]

/-- The last address that was written at a position is the one that counts. -/
theorem lastAddress?_overwritten (events : List Event) (position address other : Nat) :
    lastAddress? (events ++ [.overwritten position address]) other =
      if position = other then some address else lastAddress? events other := by
  by_cases hsame : position = other
  · simp [lastAddress?, hsame]
  · simp [lastAddress?, hsame]

theorem lastAddress?_eq_none {events : List Event} {position : Nat}
    (hnone : ∀ address, .overwritten position address ∉ events) :
    lastAddress? events position = none := by
  rw [lastAddress?, List.getLast?_eq_none_iff, List.filterMap_eq_nil_iff]
  intro event hmem
  split
  next found address =>
    refine if_neg ?_
    rintro rfl
    exact hnone address hmem
  next => rfl

/-! ### Reading an instruction back -/

/-- The instruction stands in a program at the offset where it was appended, with its operands or,
after that, with an address in their place. -/
structure Appended.ReadsBack (instruction : Appended) (code : Array UInt8)
    (address? : Option Nat) : Prop where
  wellFormed : ∃ opcode, IsInstruction instruction.code instruction.operands opcode
  fits : instruction.start + 1 + instruction.operands.length ≤ code.size
  opcode : code[instruction.start]? = some instruction.code
  operands : address? = none → ∀ index < instruction.operands.length,
    code[instruction.start + 1 + index]? = instruction.operands[index]?
  target : ∀ address, address? = some address → instruction.isBranch = true ∧
    ∃ low high, code[instruction.start + 1]? = some low ∧
      code[instruction.start + 2]? = some high ∧ addressOfBytes low high = address

theorem Appended.length_of_isBranch {instruction : Appended} {opcode : Opcode}
    (hinstruction : IsInstruction instruction.code instruction.operands opcode)
    (hbranch : instruction.isBranch = true) : instruction.operands.length = 2 := by
  obtain ⟨hopcode, hlength⟩ := hinstruction
  simp only [isBranch, hopcode, Option.any_some] at hbranch
  cases opcode with
  | branch condition => exact Nat.succ.inj hlength
  | _ => cases hbranch

namespace Appended.ReadsBack

variable {instruction : Appended} {code next : Array UInt8} {address? : Option Nat}

/-- An instruction that reads back has its size in the code. -/
theorem instructionSize? (hreads : instruction.ReadsBack code address?) :
    Octet.instructionSize? code instruction.start = some (instruction.operands.length + 1) := by
  obtain ⟨opcode, hopcode, hlength⟩ := hreads.wellFormed
  have hfits := hreads.fits
  rw [hlength]
  apply WholeAt.instructionSize?
  exact ⟨by rw [hreads.opcode, toByte_of_ofByte? hopcode], by omega⟩

/-- An instruction is read back from its own bytes. -/
theorem congr (hreads : instruction.ReadsBack code address?) (hsize : code.size ≤ next.size)
    (hsame : ∀ offset, instruction.start ≤ offset →
      offset < instruction.start + 1 + instruction.operands.length → next[offset]? = code[offset]?) :
    instruction.ReadsBack next address? := by
  refine ⟨hreads.wellFormed, Nat.le_trans hreads.fits hsize, ?_, ?_, ?_⟩
  · rw [hsame _ (Nat.le_refl _) (by omega), hreads.opcode]
  · intro hnone index hindex
    rw [hsame _ (by omega) (by omega), hreads.operands hnone index hindex]
  · intro address haddress
    obtain ⟨hbranch, hbytes⟩ := hreads.target address haddress
    obtain ⟨opcode, hinstruction⟩ := hreads.wellFormed
    have hlength := length_of_isBranch hinstruction hbranch
    rw [← hsame _ (by omega) (by omega), ← hsame _ (by omega) (by omega)] at hbytes
    exact ⟨hbranch, hbytes⟩

end Appended.ReadsBack

section Bytes

variable {builder next : Builder} {code : UInt8} {operands : List UInt8} {opcode : Opcode}

theorem getElem?_of_append (hcode : next.code.toList = builder.code.toList ++ code :: operands)
    {offset : Nat} (hlt : offset < builder.code.size) :
    next.code[offset]? = builder.code[offset]? := by
  rw [← Array.getElem?_toList, hcode, List.getElem?_append_left (by simpa using hlt),
    Array.getElem?_toList]

/-- An instruction that was just appended is read back as it is. -/
theorem readsBack_of_append (hinstruction : IsInstruction code operands opcode)
    (hcode : next.code.toList = builder.code.toList ++ code :: operands) :
    (⟨builder.code.size, code, operands⟩ : Appended).ReadsBack next.code none := by
  have hsize := size_of_append hinstruction hcode
  have hlength := hinstruction.2
  have hbehind (index : Nat) :
      next.code[builder.code.size + index]? = (code :: operands)[index]? := by
    rw [← Array.getElem?_toList, hcode, List.getElem?_append_right (by simp)]
    simp
  refine ⟨⟨opcode, hinstruction⟩, by dsimp only; omega, hbehind 0, ?_, by simp⟩
  intro _ index _
  dsimp only
  rw [Nat.add_assoc, hbehind, Nat.add_comm 1, List.getElem?_cons_succ]

/-- A branch whose target is overwritten is read back with the address in it. -/
theorem Appended.ReadsBack.of_overwritten {branch : Appended} {address? : Option Nat}
    {address : Nat} (hreads : branch.ReadsBack builder.code address?)
    (hbranch : branch.isBranch = true)
    (hoverwritten : builder.Overwritten (branch.start + 1) address next) :
    branch.ReadsBack next.code (some address) := by
  refine ⟨hreads.wellFormed, hoverwritten.size ▸ hreads.fits, ?_, by simp, ?_⟩
  · rw [hoverwritten.others _ (by omega) (by omega), hreads.opcode]
  · rintro _ ⟨rfl⟩
    exact ⟨hbranch, hoverwritten.target⟩

end Bytes

/-! ### What requests preserve -/

/-- The history of a program can be read back from it. -/
structure Records (builder : Builder) (events : List Event) : Prop where
  scans : Scans builder.code 0 ((appendedIn events).map Appended.start) builder.code.size
  reads : ∀ instruction ∈ appendedIn events,
    instruction.ReadsBack builder.code (lastAddress? events (instruction.start + 1))
  positions : ∀ position address, .overwritten position address ∈ events →
    position + 2 ≤ builder.code.size

theorem records_nil {builder : Builder} (hcode : builder.code = #[]) : builder.Records [] := by
  refine ⟨?_, by simp [appendedIn], by simp⟩
  rw [hcode]
  exact .stop (instructionSize?_size #[])

namespace Records

variable {builder next : Builder} {events : List Event}

/-- The instructions of a history are found in every program from which they are read back. -/
theorem scans_of_reads (hrecords : builder.Records events) {code : Array UInt8}
    (hreads : ∀ instruction ∈ appendedIn events, ∃ address?, instruction.ReadsBack code address?)
    {more : List Nat} {last : Nat} (hrest : Scans code builder.code.size more last) :
    Scans code 0 ((appendedIn events).map Appended.start ++ more) last := by
  refine hrecords.scans.extend ?_ hrest
  intro offset hoffset
  obtain ⟨instruction, hinstruction, rfl⟩ := List.mem_map.mp hoffset
  obtain ⟨address?, hread⟩ := hreads instruction hinstruction
  rw [hread.instructionSize?, (hrecords.reads instruction hinstruction).instructionSize?]

/-- Every instruction still reads back after another one is appended. -/
theorem append (hrecords : builder.Records events) {code : UInt8} {operands : List UInt8}
    {opcode : Opcode} (hinstruction : IsInstruction code operands opcode)
    (hcode : next.code.toList = builder.code.toList ++ code :: operands) :
    next.Records (events ++ [.appended ⟨builder.code.size, code, operands⟩]) := by
  have hsize := size_of_append hinstruction hcode
  have hnew := readsBack_of_append hinstruction hcode
  have hkeeps (instruction : Appended) (hmem : instruction ∈ appendedIn events) :
      instruction.ReadsBack next.code (lastAddress? events (instruction.start + 1)) := by
    have hreads := hrecords.reads instruction hmem
    have hfits := hreads.fits
    exact hreads.congr (by omega) fun offset _ hlt => getElem?_of_append hcode (by omega)
  refine ⟨?_, ?_, ?_⟩
  · rw [appendedIn_appended, List.map_append]
    refine hrecords.scans_of_reads (fun instruction hmem => ⟨_, hkeeps instruction hmem⟩) ?_
    refine .next hnew.instructionSize? ?_
    rw [hinstruction.2, ← hsize]
    exact .stop (instructionSize?_size _)
  · intro instruction hmem
    rw [lastAddress?_appended]
    rw [appendedIn_appended, List.mem_append, List.mem_singleton] at hmem
    rcases hmem with holder | rfl
    · exact hkeeps instruction holder
    · -- no address has been written behind the program
      rw [lastAddress?_eq_none]
      · exact hnew
      · intro address hmem
        have hle := hrecords.positions _ address hmem
        dsimp only at hle
        omega
  · intro position address hmem
    have hle := hrecords.positions position address (by simpa using hmem)
    omega

section Overwriting

variable {branch instruction : Appended}

/-- The instruction at the offset of a branch is a branch. -/
theorem isBranch_of_start_eq (hrecords : builder.Records events)
    (hbranch : branch ∈ appendedIn events) (hisBranch : branch.isBranch = true)
    (hinstruction : instruction ∈ appendedIn events) (hsame : instruction.start = branch.start) :
    instruction.isBranch = true := by
  have hcode := (hrecords.reads instruction hinstruction).opcode
  rw [hsame, (hrecords.reads branch hbranch).opcode, Option.some.injEq] at hcode
  rwa [Appended.isBranch, ← hcode]

/-- Instructions with different offsets share no bytes. -/
theorem apart_of_start_ne (hrecords : builder.Records events)
    (hbranch : branch ∈ appendedIn events) (hinstruction : instruction ∈ appendedIn events)
    (hdiffers : instruction.start ≠ branch.start) :
    instruction.start + 1 + instruction.operands.length ≤ branch.start ∨
      branch.start + 1 + branch.operands.length ≤ instruction.start := by
  have hmem {other : Appended} (hother : other ∈ appendedIn events) :
      other.start ∈ (appendedIn events).map Appended.start := List.mem_map_of_mem hother
  have hbehind := hrecords.scans.le_or_le_of_mem (hmem hbranch)
    (hrecords.reads branch hbranch).instructionSize? (hmem hinstruction)
  have hahead := hrecords.scans.le_or_le_of_mem (hmem hinstruction)
    (hrecords.reads instruction hinstruction).instructionSize? (hmem hbranch)
  omega

/-- Every instruction still reads back after the address of a branch is overwritten. -/
theorem overwrite (hrecords : builder.Records events) {address : Nat}
    (hbranch : branch ∈ appendedIn events) (hisBranch : branch.isBranch = true)
    (hoverwritten : builder.Overwritten (branch.start + 1) address next) :
    next.Records (events ++ [.overwritten (branch.start + 1) address]) := by
  have hsize := hoverwritten.size
  have htarget := hrecords.reads branch hbranch
  have hfits := htarget.fits
  obtain ⟨opcode, hopcode⟩ := htarget.wellFormed
  have hlength := Appended.length_of_isBranch hopcode hisBranch
  have hreads (instruction : Appended) (hinstruction : instruction ∈ appendedIn events) :
      instruction.ReadsBack next.code (lastAddress?
        (events ++ [.overwritten (branch.start + 1) address]) (instruction.start + 1)) := by
    have hbefore := hrecords.reads instruction hinstruction
    rw [lastAddress?_overwritten]
    by_cases hsame : instruction.start = branch.start
    · rw [if_pos (by omega)]
      exact hbefore.of_overwritten
        (hrecords.isBranch_of_start_eq hbranch hisBranch hinstruction hsame)
        (hsame.symm ▸ hoverwritten)
    · rw [if_neg (by omega)]
      have hapart := hrecords.apart_of_start_ne hbranch hinstruction hsame
      exact hbefore.congr (by omega) fun offset _ _ =>
        hoverwritten.others offset (by omega) (by omega)
  refine ⟨?_, ?_, ?_⟩
  · rw [appendedIn_overwritten, ← List.append_nil (List.map _ _), hsize]
    refine hrecords.scans_of_reads (fun instruction hmem => ⟨_, hreads instruction hmem⟩) ?_
    exact .stop (hsize ▸ instructionSize?_size _)
  · rw [appendedIn_overwritten]
    exact hreads
  · intro position found hfound
    rw [List.mem_append, List.mem_singleton] at hfound
    rcases hfound with holder | hnew
    · have hle := hrecords.positions position found holder
      omega
    · obtain ⟨rfl, rfl⟩ := Event.overwritten.inj hnew
      omega

end Overwriting

/-- What is recorded of a request can be read back after it. -/
theorem perform (hrecords : builder.Records events) (hbounded : builder.Bounded)
    {request : Request} (hhits : HitsTarget events request) :
    (builder.perform request).Records (builder.record events request) := by
  cases request with
  | emit code operands =>
      simp only [Builder.perform, record]
      rcases hemit : builder.emit code operands with ⟨result, next⟩
      cases emits_of_emit hemit with
      | malformed => exact hrecords
      | tooLarge => exact hrecords
      | appended hinstruction hfits hcode hroom => exact hrecords.append hinstruction hcode
  | patch position address =>
      simp only [Builder.perform, record]
      rcases hpatch : builder.patch position address with ⟨outcome, next⟩
      cases patches_of_patch hbounded.fits hpatch with
      | refused => exact hrecords
      | escaped => exact hrecords
      | done hpatchable hcode hroom =>
          obtain ⟨branch, hbranch, hisBranch, hposition⟩ := hhits
          have hoverwritten := overwritten_of_patchable hpatchable hcode hroom
          have hstart : position.toInt.toNat = branch.start + 1 := by omega
          rw [hstart] at hoverwritten ⊢
          exact hrecords.overwrite hbranch hisBranch hoverwritten
  | reset => exact records_nil rfl
  | freeze => exact records_nil rfl

/-- Any requests that hit branch targets only leave every instruction as it was recorded. -/
theorem performAll (hrecords : builder.Records events) (hbounded : builder.Bounded)
    {requests : List Request} (hhits : builder.HitsTargets events requests) :
    (builder.performAll requests).Records (builder.history events requests) := by
  induction requests generalizing builder events with
  | nil => exact hrecords
  | cons request requests ih =>
      exact ih (hrecords.perform hbounded hhits.1) (hbounded.perform request) hhits.2

end Records

/-- A finished program gives back its history: its table holds the offsets where instructions were
appended, they cover the program, and each of them is read back there, with the last address that was
written into it. -/
theorem freeze_reads_back (requests : List Request) (hhits : empty.HitsTargets [] requests) :
    let events := empty.history [] requests
    let cluster := (empty.performAll requests).freeze.1
    cluster.offsets.toList = (appendedIn events).map Appended.start ∧
      cluster.Covered ∧
      cluster.count = (appendedIn events).length ∧
      ∀ instruction ∈ appendedIn events,
        instruction.ReadsBack cluster.code (lastAddress? events (instruction.start + 1)) := by
  intro events cluster
  have hrecords := (records_nil rfl).performAll bounded_empty hhits
  obtain ⟨htable, hcovered⟩ := Cluster.offsets_of_scans hrecords.scans
  have hoffsets : cluster.offsets.toList = (appendedIn events).map Appended.start := htable
  refine ⟨hoffsets, hcovered, ?_, hrecords.reads⟩
  rw [Cluster.count, ← Array.length_toList, hoffsets, List.length_map]

/-- Of two branches with a refused instruction between them, one is given an address twice and the
other one is refused an address. -/
theorem freeze_reads_back_of_branches :
    let requests : List Request := [.emit 34 [7, 7], .emit 99 [], .emit 24 [2], .emit 35 [8, 9],
      .patch 1 5, .patch 6 65536, .patch 1 1027]
    let cluster := (empty.performAll requests).freeze.1
    empty.HitsTargets [] requests ∧
      cluster.offsets.toList = [0, 3, 5] ∧ cluster.Covered ∧ cluster.count = 3 ∧
      Appended.ReadsBack ⟨0, 34, [7, 7]⟩ cluster.code (some 1027) ∧
      Appended.ReadsBack ⟨5, 35, [8, 9]⟩ cluster.code none := by
  intro requests cluster
  have hhits : empty.HitsTargets [] requests := by decide +kernel
  have happended : appendedIn (empty.history [] requests) =
      [⟨0, 34, [7, 7]⟩, ⟨3, 24, [2]⟩, ⟨5, 35, [8, 9]⟩] := by decide +kernel
  have hfirst : lastAddress? (empty.history [] requests) 1 = some 1027 := by decide +kernel
  have hsecond : lastAddress? (empty.history [] requests) 6 = none := by decide +kernel
  obtain ⟨hoffsets, hcovered, hcount, hreads⟩ := freeze_reads_back requests hhits
  rw [happended] at hoffsets hcount hreads
  refine ⟨hhits, hoffsets, hcovered, hcount, ?_, ?_⟩
  · rw [← hfirst]
    exact hreads ⟨0, 34, [7, 7]⟩ (by simp)
  · rw [← hsecond]
    exact hreads ⟨5, 35, [8, 9]⟩ (by simp)

end Builder

end Octet
