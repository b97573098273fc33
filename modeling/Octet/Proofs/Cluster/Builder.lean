import Octet.Cluster.Builder
import Octet.Proofs.Source.Layout

/-! # What a builder does

A builder appends instructions, overwrites branch targets, and can be emptied. What one
request can do is said once: an instruction that is refused changes nothing, and a
request to overwrite is computed with machine words but decided, almost everywhere, as
if the numbers were exact. From there follow the laws of every sequence of requests. The
room grows by doubling and is always enough for what is appended. The only positions
that are decided wrongly are the two whose end is no machine word.
-/

namespace Octet

/-- Overwrites two bytes with an address. -/
def writeAddress (bytes : List UInt8) (position address : Nat) : List UInt8 :=
  (bytes.set position (addressBytes address).1).set (position + 1) (addressBytes address).2

/-- The code is that of an opcode, which takes as many operand bytes as there are. -/
def IsInstruction (code : UInt8) (operands : List UInt8) (opcode : Opcode) : Prop :=
  Opcode.ofByte? code = some opcode ∧ operands.length + 1 = opcode.size

theorem IsInstruction.unique {code : UInt8} {operands : List UInt8} {opcode other : Opcode}
    (hinstruction : IsInstruction code operands opcode)
    (hother : IsInstruction code operands other) : opcode = other :=
  Option.some.inj (hinstruction.1.symm.trans hother.1)

namespace Builder

/-! ### Appending -/

/-- What becomes of an instruction that is to be appended: it is refused and nothing changes, or its
bytes come behind the program. -/
inductive Emits (builder : Builder) (code : UInt8) (operands : List UInt8) :
    Except Cause Unit → Builder → Prop
  | malformed {cause : Cause} (hcause : cause ≠ .clusterTooLarge)
      (hmalformed : ∀ opcode, ¬ IsInstruction code operands opcode) :
      Emits builder code operands (.error cause) builder
  | tooLarge {opcode : Opcode} (hinstruction : IsInstruction code operands opcode)
      (hover : maxClusterSize < builder.code.size + opcode.size) :
      Emits builder code operands (.error .clusterTooLarge) builder
  | appended {opcode : Opcode} {next : Builder} (hinstruction : IsInstruction code operands opcode)
      (hfits : builder.code.size + opcode.size ≤ maxClusterSize)
      (hcode : next.code.toList = builder.code.toList ++ code :: operands)
      (hroom : next.capacity = grownCapacity builder.capacity (builder.code.size + opcode.size)) :
      Emits builder code operands (.ok ()) next

/-- Appending an instruction does what it should: all of it is there, or none of it. -/
theorem emits_emit (builder : Builder) (code : UInt8) (operands : List UInt8) :
    builder.Emits code operands (builder.emit code operands).1 (builder.emit code operands).2 := by
  unfold emit
  split
  next hnone =>
    refine .malformed (by simp) fun opcode hinstruction => ?_
    cases hnone.symm.trans hinstruction.1
  next opcode hopcode =>
    split
    next hlength =>
      refine .malformed (by simp) fun other hinstruction => hlength ?_
      obtain rfl := Option.some.inj (hopcode.symm.trans hinstruction.1)
      exact hinstruction.2
    next hlength =>
      have hinstruction : IsInstruction code operands opcode := ⟨hopcode, by omega⟩
      simp only [hinstruction.2]
      split
      next hover => exact .tooLarge hinstruction hover
      next hfits => exact .appended hinstruction (Nat.le_of_not_lt hfits) (by simp) rfl

section Appending

variable {builder next : Builder} {code : UInt8} {operands : List UInt8}

theorem emits_of_emit {result : Except Cause Unit}
    (hemit : builder.emit code operands = (result, next)) :
    builder.Emits code operands result next := by
  have hemits := builder.emits_emit code operands
  rwa [hemit] at hemits

/-- The size of the program after an instruction that was not refused. -/
theorem size_of_append {opcode : Opcode} (hinstruction : IsInstruction code operands opcode)
    (hcode : next.code.toList = builder.code.toList ++ code :: operands) :
    next.code.size = builder.code.size + opcode.size := by
  rw [← Array.length_toList, hcode, List.length_append, Array.length_toList, List.length_cons,
    hinstruction.2]

/-- An instruction that is accepted is appended, and the code still fits. -/
theorem code_of_emit {value : Unit} (hemit : builder.emit code operands = (.ok value, next)) :
    next.code.toList = builder.code.toList ++ code :: operands ∧
      next.code.size ≤ maxClusterSize := by
  cases emits_of_emit hemit with
  | appended hinstruction hfits hcode hroom =>
      have hsize := size_of_append hinstruction hcode
      exact ⟨hcode, by omega⟩

/-- An instruction that fits behind the program is emitted. -/
theorem emit_of_le {opcode : Opcode} (hlength : operands.length + 1 = opcode.size)
    (hfits : builder.code.size + opcode.size ≤ maxClusterSize) :
    ∃ next, builder.emit opcode.toByte operands = (.ok (), next) := by
  have hinstruction : IsInstruction opcode.toByte operands opcode := ⟨ofByte?_toByte opcode, hlength⟩
  rcases hemit : builder.emit opcode.toByte operands with ⟨result, next⟩
  cases emits_of_emit hemit with
  | malformed _ hmalformed => exact absurd hinstruction (hmalformed opcode)
  | tooLarge hother hover =>
      obtain rfl := hinstruction.unique hother
      omega
  | appended => exact ⟨next, rfl⟩

/-- A refused instruction changes nothing. -/
theorem eq_of_emit_error {cause : Cause} (hemit : builder.emit code operands = (.error cause, next)) :
    next = builder := by
  cases emits_of_emit hemit with
  | malformed => rfl
  | tooLarge => rfl

end Appending

/-! ### Overwriting -/

/-- The two bytes at a position lie in the program, and two bytes can hold the address. -/
def Patchable (builder : Builder) (position address : Int) : Prop :=
  (0 ≤ position ∧ position + 2 ≤ builder.code.size) ∧ 0 ≤ address ∧ address ≤ maxClusterSize

/-- The end of the two bytes at a position is no machine word, and two bytes can hold the address.
-/
def Wraps (position address : Int) : Prop :=
  Int64.maxValue.toInt < position + 2 ∧ 0 ≤ address ∧ address ≤ maxClusterSize

/-- What becomes of a request to overwrite a branch target. -/
inductive Patches (builder : Builder) (position address : Int) : Patched → Builder → Prop
  | refused {failure : Failure} (hrefused : ¬ builder.Patchable position address)
      (hword : ¬ Wraps position address) : Patches builder position address (.refused failure) builder
  | escaped (hwraps : Wraps position address) : Patches builder position address .escaped builder
  | done {next : Builder} (hpatchable : builder.Patchable position address)
      (hcode : next.code.toList =
        writeAddress builder.code.toList position.toNat address.toNat)
      (hroom : next.capacity = builder.capacity) : Patches builder position address .done next

theorem toInt_maxValue : Int64.maxValue.toInt = 9223372036854775807 := rfl

/-- The end of the two bytes at a position, as a machine word. -/
theorem toInt_add_two (position : Int64) :
    (position + 2).toInt =
      if position.toInt + 2 ≤ Int64.maxValue.toInt then position.toInt + 2
      else position.toInt + 2 - 18446744073709551616 := by
  have hmax := toInt_maxValue
  have hlow := position.le_toInt
  have hhigh := position.toInt_lt
  rw [Int64.toInt_add, show (2 : Int64).toInt = 2 from rfl]
  split
  next hword => exact Int.bmod_eq_of_le (by omega) (by omega)
  next hwraps =>
    rw [← Int.sub_bmod_right]
    exact Int.bmod_eq_of_le (by omega) (by omega)

/-- Overwriting an address does what it should, also for arguments that are out of range. -/
theorem patches_patch {builder : Builder} (hfits : builder.code.size ≤ maxClusterSize)
    (position address : Int64) :
    builder.Patches position.toInt address.toInt (builder.patch position address).1
      (builder.patch position address).2 := by
  have hmax : maxClusterSize = 65535 := rfl
  have hsize : (Int64.ofNat builder.code.size).toInt = builder.code.size :=
    Int64.toInt_ofNat_of_lt (by omega)
  have hend := toInt_add_two position
  have hbelow := position.toInt_le
  have hlargest := toInt_maxValue
  have haddress : (65535 : Int64).toInt = 65535 := rfl
  unfold patch
  simp only [Int64.lt_iff_toInt_lt, Int64.toInt_zero, hsize, haddress]
  split
  next houtside =>
    apply Patches.refused
    · rintro ⟨hinside, -⟩
      split at hend <;> omega
    · rintro ⟨hwraps, -⟩
      split at hend <;> omega
  next hinside =>
    split
    next hlarge =>
      apply Patches.refused
      · rintro ⟨-, hsmall⟩
        omega
      · rintro ⟨-, hsmall⟩
        omega
    next hsmall =>
      split
      next hwithin =>
        refine .done ⟨by omega, by omega⟩ ?_ rfl
        have hcast : ((address.toInt.toNat : Nat) : Int) = address.toInt := by omega
        simp only [writeAddress, hcast, Array.toList_setIfInBounds]
      next hbeyond =>
        refine .escaped ⟨?_, by omega⟩
        split at hend <;> omega

theorem patches_of_patch {builder next : Builder} (hfits : builder.code.size ≤ maxClusterSize)
    {position address : Int64} {outcome : Patched}
    (hpatch : builder.patch position address = (outcome, next)) :
    builder.Patches position.toInt address.toInt outcome next := by
  have hpatches := patches_patch hfits position address
  rwa [hpatch] at hpatches

/-- A target inside the program is overwritten, since no number involved exceeds a machine word. -/
theorem patch_of_le {builder : Builder} {position address : Nat}
    (hfits : builder.code.size ≤ maxClusterSize) (hposition : position + 2 ≤ builder.code.size)
    (haddress : address ≤ maxClusterSize) :
    ∃ next, builder.patch (Int64.ofNat position) (Int64.ofNat address) = (.done, next) ∧
      next.code.toList = writeAddress builder.code.toList position address := by
  have hmax : maxClusterSize = 65535 := rfl
  rcases hpatch : builder.patch (Int64.ofNat position) (Int64.ofNat address) with ⟨outcome, next⟩
  have hpatches := patches_of_patch hfits hpatch
  rw [Int64.toInt_ofNat_of_lt (by omega), Int64.toInt_ofNat_of_lt (by omega)] at hpatches
  cases hpatches with
  | refused hrefused hword => exact absurd ⟨by omega, by omega⟩ hrefused
  | escaped hwraps =>
      have hend := hwraps.1
      have hlargest := toInt_maxValue
      omega
  | done hpatchable hcode hroom => exact ⟨next, rfl, hcode⟩

/-- The two bytes at a position hold an address, and nothing else has changed. -/
structure Overwritten (builder : Builder) (position address : Nat) (next : Builder) : Prop where
  room : next.capacity = builder.capacity
  size : next.code.size = builder.code.size
  target : ∃ low high, next.code[position]? = some low ∧ next.code[position + 1]? = some high ∧
    addressOfBytes low high = address
  others : ∀ offset, offset ≠ position → offset ≠ position + 1 →
    next.code[offset]? = builder.code[offset]?

/-- An address that can be overwritten is, and nothing else. -/
theorem overwritten_of_patchable {builder next : Builder} {position address : Int}
    (hpatchable : builder.Patchable position address)
    (hcode : next.code.toList = writeAddress builder.code.toList position.toNat address.toNat)
    (hroom : next.capacity = builder.capacity) :
    builder.Overwritten position.toNat address.toNat next := by
  obtain ⟨hinside, haddress⟩ := hpatchable
  have hbytes (offset : Nat) : next.code[offset]? =
      (writeAddress builder.code.toList position.toNat address.toNat)[offset]? := by
    rw [← hcode, Array.getElem?_toList]
  have hlength : builder.code.toList.length = builder.code.size := Array.length_toList
  refine ⟨hroom, ?_, ?_, ?_⟩
  · rw [← Array.length_toList, hcode]
    simp [writeAddress]
  · refine ⟨(addressBytes address.toNat).1, (addressBytes address.toNat).2, ?_, ?_,
      addressOfBytes_addressBytes (by omega)⟩
    · rw [hbytes, writeAddress, List.getElem?_set_ne (by omega), List.getElem?_set_self (by omega)]
    · rw [hbytes, writeAddress, List.getElem?_set_self (by rw [List.length_set]; omega)]
  · intro offset hfirst hsecond
    rw [hbytes, writeAddress, List.getElem?_set_ne hsecond.symm, List.getElem?_set_ne hfirst.symm,
      Array.getElem?_toList]

/-! ### Room -/

/-- Room that is set aside: the least room, doubled a number of times. -/
def Room (capacity : Nat) : Prop := ∃ doublings ≤ 10, capacity = minCapacity * 2 ^ doublings

theorem Room.le {capacity : Nat} (hroom : Room capacity) : capacity ≤ maxClusterSize + 1 := by
  obtain ⟨doublings, hle, rfl⟩ := hroom
  exact Nat.mul_le_mul_left minCapacity (Nat.pow_le_pow_right (by decide) hle)

/-- Room that does not suffice can be doubled, since ten doublings suffice for every program. -/
theorem Room.double {capacity need : Nat} (hroom : Room capacity) (hneed : need ≤ maxClusterSize)
    (hlt : capacity < need) : Room (2 * capacity) := by
  obtain ⟨doublings, hle, rfl⟩ := hroom
  have hlast : doublings ≠ 10 := by
    rintro rfl
    have hmost : minCapacity * 2 ^ 10 = maxClusterSize + 1 := rfl
    omega
  refine ⟨doublings + 1, by omega, ?_⟩
  rw [Nat.pow_succ, Nat.mul_left_comm, Nat.mul_comm 2]

/-- Doubling finds room for what is needed, and never gives room up. -/
theorem doubleUntil_spec {need capacity : Nat} (hneed : need ≤ maxClusterSize)
    (hroom : Room capacity) :
    Room (doubleUntil need capacity) ∧ need ≤ doubleUntil need capacity ∧
      capacity ≤ doubleUntil need capacity := by
  fun_induction doubleUntil need capacity with
  | case1 capacity hlt ih =>
      obtain ⟨hgrown, hsuffices, hle⟩ := ih (hroom.double hneed hlt.2)
      exact ⟨hgrown, hsuffices, by omega⟩
  | case2 capacity hnot =>
      have hpos : 0 < capacity := by
        obtain ⟨doublings, -, rfl⟩ := hroom
        exact Nat.mul_pos (by decide) (Nat.pow_pos (by decide))
      exact ⟨hroom, by omega, Nat.le_refl _⟩

/-- The room after a request suffices for it, is one that can be set aside, and is not less. -/
theorem grownCapacity_spec {capacity need : Nat} (hneed : need ≤ maxClusterSize)
    (hroom : capacity = 0 ∨ Room capacity) :
    (grownCapacity capacity need = 0 ∨ Room (grownCapacity capacity need)) ∧
      need ≤ grownCapacity capacity need ∧ capacity ≤ grownCapacity capacity need := by
  unfold grownCapacity
  split
  next hsuffices => exact ⟨hroom, hsuffices, Nat.le_refl _⟩
  next hlacks =>
    have hstart : Room (max (2 * capacity) minCapacity) := by
      rcases hroom with rfl | hroom
      · exact ⟨0, by omega, rfl⟩
      · have hdouble := hroom.double hneed (by omega)
        obtain ⟨doublings, -, hcapacity⟩ := hdouble
        have hle : minCapacity ≤ 2 * capacity := by
          rw [hcapacity]
          exact Nat.le_mul_of_pos_right _ (Nat.pow_pos (by decide))
        rw [Nat.max_eq_left hle]
        exact hroom.double hneed (by omega)
    obtain ⟨hgrown, hsuffices, hle⟩ := doubleUntil_spec hneed hstart
    exact ⟨.inr hgrown, hsuffices, by omega⟩

/-! ### Sequences of requests -/

/-- What can be asked of a builder. -/
inductive Request where
  | emit (code : UInt8) (operands : List UInt8)
  | patch (position address : Int64)
  | reset
  | freeze
  deriving DecidableEq, Repr

/-- The builder after a request. -/
def perform (builder : Builder) : Request → Builder
  | .emit code operands => (builder.emit code operands).2
  | .patch position address => (builder.patch position address).2
  | .reset => builder.reset
  | .freeze => builder.freeze.2

/-- The builder after some requests. -/
def performAll (builder : Builder) (requests : List Request) : Builder :=
  requests.foldl perform builder

/-- The program can be addressed and lies in the room that is set aside. -/
structure Bounded (builder : Builder) : Prop where
  fits : builder.code.size ≤ maxClusterSize
  within : builder.code.size ≤ builder.capacity
  room : builder.capacity = 0 ∨ Room builder.capacity

theorem bounded_empty : empty.Bounded := ⟨Nat.zero_le _, Nat.le_refl _, .inl rfl⟩

namespace Bounded

variable {builder next : Builder}

/-- Appending keeps to the bounds, and room is never given up. -/
theorem emit (hbounded : builder.Bounded) {code : UInt8} {operands : List UInt8}
    {result : Except Cause Unit} (hemit : builder.emit code operands = (result, next)) :
    next.Bounded ∧ builder.capacity ≤ next.capacity := by
  cases emits_of_emit hemit with
  | malformed => exact ⟨hbounded, Nat.le_refl _⟩
  | tooLarge => exact ⟨hbounded, Nat.le_refl _⟩
  | appended hinstruction hfits hcode hroom =>
      obtain ⟨hgrown, hsuffices, hle⟩ := grownCapacity_spec hfits hbounded.room
      have hsize := size_of_append hinstruction hcode
      exact ⟨⟨by omega, by omega, hroom ▸ hgrown⟩, by omega⟩

/-- Overwriting keeps to the bounds, and needs no room. -/
theorem patch (hbounded : builder.Bounded) {position address : Int64} {outcome : Patched}
    (hpatch : builder.patch position address = (outcome, next)) :
    next.Bounded ∧ next.capacity = builder.capacity := by
  cases patches_of_patch hbounded.fits hpatch with
  | refused => exact ⟨hbounded, rfl⟩
  | escaped => exact ⟨hbounded, rfl⟩
  | done hpatchable hcode hroom =>
      have hsize := (overwritten_of_patchable hpatchable hcode hroom).size
      refine ⟨⟨hsize ▸ hbounded.fits, ?_, hroom ▸ hbounded.room⟩, hroom⟩
      rw [hsize, hroom]
      exact hbounded.within

/-- A request keeps the program in bounds. -/
theorem perform (hbounded : builder.Bounded) (request : Request) :
    (builder.perform request).Bounded := by
  cases request with
  | emit code operands => exact (hbounded.emit rfl).1
  | patch position address => exact (hbounded.patch rfl).1
  | reset => exact ⟨Nat.zero_le _, Nat.zero_le _, hbounded.room⟩
  | freeze => exact bounded_empty

/-- Any requests keep to the bounds. -/
theorem performAll (hbounded : builder.Bounded) (requests : List Request) :
    (builder.performAll requests).Bounded := by
  induction requests generalizing builder with
  | nil => exact hbounded
  | cons request requests ih => exact ih (hbounded.perform request)

/-- Only a finished program gives its room away. -/
theorem capacity_perform (hbounded : builder.Bounded) (request : Request) :
    if request = .freeze then (builder.perform request).capacity = 0
      else builder.capacity ≤ (builder.perform request).capacity := by
  cases request with
  | emit code operands => exact (hbounded.emit rfl).2
  | patch position address => exact Nat.le_of_eq (hbounded.patch rfl).2.symm
  | reset => exact Nat.le_refl _
  | freeze => rfl

end Bounded

/-! ### Appending in the room that is set aside -/

/-- Sets room aside for further bytes. -/
def reserve (builder : Builder) (count : Nat) : Builder :=
  ⟨builder.code, grownCapacity builder.capacity (builder.code.size + count)⟩

/-- Bytes put behind the program. If they do not fit in the room, the program is moved, and `regrow`
decides from the room and the bytes that are needed how much there is afterwards. -/
def append (regrow : Nat → Nat → Nat) (builder : Builder) (bytes : List UInt8) : Builder :=
  let need := builder.code.size + bytes.length
  ⟨bytes.foldl Array.push builder.code,
    if need ≤ builder.capacity then builder.capacity else regrow builder.capacity need⟩

/-- An instruction is appended in the room set aside for it: neither its code nor its operands make the
program move. -/
theorem append_of_emit {builder next : Builder} (hbounded : builder.Bounded) {code : UInt8}
    {operands : List UInt8} {value : Unit}
    (hemit : builder.emit code operands = (.ok value, next)) (regrow : Nat → Nat → Nat) :
    next = ((builder.reserve (operands.length + 1)).append regrow [code]).append regrow operands := by
  cases emits_of_emit hemit with
  | @appended opcode _ hinstruction hfits hcode hroom =>
      obtain ⟨-, hsuffices, -⟩ := grownCapacity_spec hfits hbounded.room
      obtain ⟨bytes, capacity⟩ := next
      simp only [reserve, append, List.foldl_cons, List.foldl_nil, List.length_singleton,
        Array.size_push, hinstruction.2]
      have hlength := hinstruction.2
      have hfirst : builder.code.size + 1 ≤
          grownCapacity builder.capacity (builder.code.size + opcode.size) := by omega
      have hrest : builder.code.size + 1 + operands.length ≤
          grownCapacity builder.capacity (builder.code.size + opcode.size) := by omega
      rw [if_pos hfirst, if_pos hrest]
      have hbytes : bytes = operands.foldl Array.push (builder.code.push code) := by
        apply Array.toList_inj.mp
        simpa using hcode
      rw [hbytes, ← hroom]

/-- What holds of a builder about its size and its room, and about the next request. -/
structure Sized (builder : Builder) : Prop where
  fits : builder.code.size ≤ maxClusterSize
  within : builder.code.size ≤ builder.capacity
  doubled : builder.capacity = 0 ∨ ∃ doublings, builder.capacity = minCapacity * 2 ^ doublings
  limited : builder.capacity ≤ 65536
  /-- Room is kept until a program is finished. -/
  keeps : ∀ request, if request = .freeze then (builder.perform request).capacity = 0
    else builder.capacity ≤ (builder.perform request).capacity
  /-- Appending never moves the program out of the room that was set aside for it. -/
  stays : ∀ code operands next, builder.emit code operands = (.ok (), next) → ∀ regrow,
    next = ((builder.reserve (operands.length + 1)).append regrow [code]).append regrow operands
  refused : ∀ code operands cause next, builder.emit code operands = (.error cause, next) →
    next = builder
  taken_iff : ∀ code operands, (builder.emit code operands).1 = .ok () ↔
    ∃ opcode, IsInstruction code operands opcode ∧
      builder.code.size + opcode.size ≤ maxClusterSize
  tooLarge_iff : ∀ code operands, (builder.emit code operands).1 = .error .clusterTooLarge ↔
    ∃ opcode, IsInstruction code operands opcode ∧
      maxClusterSize < builder.code.size + opcode.size

/-- A builder stays within its limits through every sequence of requests, whether they are carried
out or refused. -/
theorem performAll_sized (requests : List Request) : (empty.performAll requests).Sized := by
  have hbounded := bounded_empty.performAll requests
  generalize empty.performAll requests = builder at hbounded
  constructor
  case fits => exact hbounded.fits
  case within => exact hbounded.within
  case doubled =>
    rcases hbounded.room with hnone | ⟨doublings, -, hroom⟩
    · exact .inl hnone
    · exact .inr ⟨doublings, hroom⟩
  case limited =>
    rcases hbounded.room with hnone | hroom
    · omega
    · exact hroom.le
  case keeps => exact hbounded.capacity_perform
  case stays => exact fun code operands next hemit => append_of_emit hbounded hemit
  case refused => exact fun code operands cause next hemit => eq_of_emit_error hemit
  case taken_iff =>
    intro code operands
    rcases hemit : builder.emit code operands with ⟨result, next⟩
    cases emits_of_emit hemit with
    | malformed _ hmalformed => simp [hmalformed]
    | tooLarge hinstruction hover =>
        refine iff_of_false (by simp) ?_
        rintro ⟨other, hother, hfits⟩
        obtain rfl := hinstruction.unique hother
        omega
    | appended hinstruction hfits => exact iff_of_true rfl ⟨_, hinstruction, hfits⟩
  case tooLarge_iff =>
    intro code operands
    rcases hemit : builder.emit code operands with ⟨result, next⟩
    cases emits_of_emit hemit with
    | malformed hcause hmalformed => simp [hcause, hmalformed]
    | tooLarge hinstruction hover => exact iff_of_true rfl ⟨_, hinstruction, hover⟩
    | appended hinstruction hfits =>
        refine iff_of_false (by simp) ?_
        rintro ⟨other, hother, hover⟩
        obtain rfl := hinstruction.unique hother
        omega

/-- A request to overwrite is carried out if it lies in the program, and is refused without a change
otherwise. -/
structure Settled (builder : Builder) (position address : Int) (outcome : Patched)
    (next : Builder) : Prop where
  returns : outcome ≠ .escaped
  done_iff : outcome = .done ↔ builder.Patchable position address
  overwritten : outcome = .done → builder.Overwritten position.toNat address.toNat next
  unchanged : outcome ≠ .done → next = builder

/-- Requests to overwrite are settled, unless the end of the two bytes is no machine word: those pass
the range check and reach for bytes outside of the program. -/
theorem patch_settled_iff (requests : List Request) (position address : Int64) :
    let builder := empty.performAll requests
    let result := builder.patch position address
    (builder.Settled position.toInt address.toInt result.1 result.2 ↔
      ¬ Wraps position.toInt address.toInt) ∧
    (result = (.escaped, builder) ↔ Wraps position.toInt address.toInt) := by
  dsimp only
  have hfits := (bounded_empty.performAll requests).fits
  generalize empty.performAll requests = builder at hfits ⊢
  have hmax : maxClusterSize = 65535 := rfl
  rcases hpatch : builder.patch position address with ⟨outcome, next⟩
  cases patches_of_patch hfits hpatch with
  | refused hrefused hword =>
      refine ⟨iff_of_true ⟨by simp, by simpa using hrefused, by simp, fun _ => rfl⟩ hword, ?_⟩
      exact iff_of_false (by simp) hword
  | escaped hwraps =>
      refine ⟨iff_of_false (fun hsettled => hsettled.returns rfl) (fun hnot => hnot hwraps), ?_⟩
      exact iff_of_true rfl hwraps
  | done hpatchable hcode hroom =>
      have hword : ¬ Wraps position.toInt address.toInt := by
        rintro ⟨hend, -⟩
        have hinside := hpatchable.1.2
        have hlargest := toInt_maxValue
        omega
      have hoverwritten := overwritten_of_patchable hpatchable hcode hroom
      refine ⟨iff_of_true ⟨by simp, by simpa using hpatchable, fun _ => hoverwritten, ?_⟩ hword,
        iff_of_false (by simp) hword⟩
      exact fun hnot => absurd rfl hnot

/-- Behind the largest machine word but one there is no room for two bytes, and a request to
overwrite them is not refused. -/
theorem patch_escapes_at_end :
    let builder := empty.performAll [.emit 34 [0, 0]]
    (builder.patch 9223372036854775806 0).1 = .escaped ∧
      ¬ builder.Settled (9223372036854775806 : Int64).toInt (0 : Int64).toInt
        (builder.patch 9223372036854775806 0).1 (builder.patch 9223372036854775806 0).2 := by
  intro builder
  have hescaped : (builder.patch 9223372036854775806 0).1 = .escaped := by decide +kernel
  exact ⟨hescaped, fun hsettled => hsettled.returns hescaped⟩

end Builder

end Octet
