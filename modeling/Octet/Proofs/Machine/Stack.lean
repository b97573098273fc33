import Mathlib.Tactic.Common
import Octet.Machine.State

/-! # The stack by its values

A stack whose size does not exceed its capacity is determined by the list of its
values as far as instructions can tell. Pushing appends to the list, popping takes
its last value, and either fails just where the list is full or empty.
-/

namespace Octet.Stack

/-- The size does not exceed the capacity. -/
def WellFormed (stack : Stack) : Prop := stack.size ≤ stack.capacity

/-- A stack holds as many values as its size says. -/
theorem length_values {stack : Stack} (hstack : stack.WellFormed) :
    stack.values.length = stack.size := by
  have hsize : stack.size ≤ stack.slots.size := hstack
  simp [values, hsize]

/-- A value can be pushed exactly if there is room, and goes into the first unused slot. -/
theorem push_eq_ok_iff {stack next : Stack} {value : UInt8} :
    stack.push value = .ok next ↔
      stack.size < stack.capacity ∧
        next = ⟨stack.slots.setIfInBounds stack.size value, stack.size + 1⟩ := by
  unfold push
  split
  next hfull => simp [hfull]
  next =>
    split
    next hlt => simp [hlt, eq_comm]
    next hnot => simp [hnot]

theorem push_of_lt {stack : Stack} (hlt : stack.size < stack.capacity) (value : UInt8) :
    ∃ next, stack.push value = .ok next :=
  ⟨_, push_eq_ok_iff.mpr ⟨hlt, rfl⟩⟩

theorem push_of_full {stack : Stack} (hfull : stack.size = stack.capacity) (value : UInt8) :
    stack.push value = .error .stackOverflow := by
  simp [push, hfull]

/-- The top value is the one in the last used slot. -/
theorem peek_eq_ok_iff {stack : Stack} {value : UInt8} :
    stack.peek = .ok value ↔ 0 < stack.size ∧ stack.slots[stack.size - 1]? = some value := by
  unfold peek
  split
  next hempty => simp [hempty]
  next hsome =>
    split
    next found hfound => simp [hfound, Nat.pos_of_ne_zero hsome]
    next hnone => simp [hnone]

theorem peek_of_pos {stack : Stack} (hstack : stack.WellFormed) (hpos : 0 < stack.size) :
    ∃ value, stack.peek = .ok value := by
  have hlt : stack.size - 1 < stack.slots.size := by
    have hsize : stack.size ≤ stack.slots.size := hstack
    omega
  exact ⟨_, peek_eq_ok_iff.mpr ⟨hpos, Array.getElem?_eq_getElem hlt⟩⟩

theorem peek_of_empty {stack : Stack} (hempty : stack.size = 0) :
    stack.peek = .error .stackUnderflow := by
  simp [peek, hempty]

/-- Popping gives the top value and leaves the slots as they are. -/
theorem pop_eq_ok_iff {stack next : Stack} {value : UInt8} :
    stack.pop = .ok (value, next) ↔
      stack.peek = .ok value ∧ next = ⟨stack.slots, stack.size - 1⟩ := by
  unfold pop
  cases stack.peek with
  | error cause => simp
  | ok found => simp [eq_comm]

theorem pop_of_peek {stack : Stack} {value : UInt8} (hpeek : stack.peek = .ok value) :
    stack.pop = .ok (value, ⟨stack.slots, stack.size - 1⟩) :=
  pop_eq_ok_iff.mpr ⟨hpeek, rfl⟩

/-- What is seen on top is what popping gives. -/
theorem peek_map {α : Type} (stack : Stack) (change : UInt8 → α) :
    stack.peek.map change = stack.pop.map fun popped => change popped.1 := by
  unfold pop
  cases stack.peek <;> rfl

/-! ### What makes the operations fail -/

/-- Pushing fails only on a full stack. -/
theorem push_eq_error {stack : Stack} {value : UInt8} {cause : Cause} (hstack : stack.WellFormed)
    (hpush : stack.push value = .error cause) :
    stack.size = stack.capacity ∧ cause = .stackOverflow := by
  rcases Nat.lt_or_eq_of_le hstack with hlt | hfull
  · obtain ⟨next, hnext⟩ := push_of_lt hlt value
    rw [hnext] at hpush
    cases hpush
  · rw [push_of_full hfull] at hpush
    exact ⟨hfull, (Except.error.inj hpush).symm⟩

theorem peek_eq_error {stack : Stack} {cause : Cause} (hstack : stack.WellFormed)
    (hpeek : stack.peek = .error cause) : stack.size = 0 ∧ cause = .stackUnderflow := by
  rcases Nat.eq_zero_or_pos stack.size with hempty | hpos
  · rw [peek_of_empty hempty] at hpeek
    exact ⟨hempty, (Except.error.inj hpeek).symm⟩
  · obtain ⟨value, hvalue⟩ := peek_of_pos hstack hpos
    rw [hvalue] at hpeek
    cases hpeek

/-- Popping fails only on an empty stack. -/
theorem pop_eq_error {stack : Stack} {cause : Cause} (hstack : stack.WellFormed)
    (hpop : stack.pop = .error cause) : stack.size = 0 ∧ cause = .stackUnderflow := by
  cases hpeek : stack.peek with
  | ok value =>
      rw [pop_of_peek hpeek] at hpop
      cases hpop
  | error found =>
      simp only [pop, hpeek, Except.error.injEq] at hpop
      exact hpop ▸ peek_eq_error hstack hpeek

/-! ### What the operations do to the values -/

/-- A pushed value comes after those that were there. -/
theorem values_of_push {stack next : Stack} {value : UInt8} (hpush : stack.push value = .ok next) :
    next.values = stack.values ++ [value] := by
  obtain ⟨hlt, rfl⟩ := push_eq_ok_iff.mp hpush
  have hsize : stack.size < stack.slots.toList.length := hlt
  simp only [values, Array.toList_setIfInBounds]
  rw [List.take_succ_eq_append_getElem (by simpa using hsize), List.getElem_set_self,
    List.take_set_of_le (Nat.le_refl _)]

theorem values_of_peek {stack : Stack} {value : UInt8} (hpeek : stack.peek = .ok value) :
    stack.values = stack.slots.toList.take (stack.size - 1) ++ [value] := by
  obtain ⟨hpos, hslot⟩ := peek_eq_ok_iff.mp hpeek
  obtain ⟨hlt, hvalue⟩ := Array.getElem?_eq_some_iff.mp hslot
  obtain ⟨size, hsize⟩ : ∃ size, stack.size = size + 1 := ⟨stack.size - 1, by omega⟩
  simp only [values, hsize, Nat.add_sub_cancel] at hlt hvalue ⊢
  rw [List.take_succ_eq_append_getElem (by simpa using hlt)]
  simp [hvalue]

/-- Popping takes the last value away. -/
theorem values_of_pop {stack next : Stack} {value : UInt8}
    (hpop : stack.pop = .ok (value, next)) : stack.values = next.values ++ [value] := by
  obtain ⟨hpeek, rfl⟩ := pop_eq_ok_iff.mp hpop
  exact values_of_peek hpeek

theorem capacity_of_push {stack next : Stack} {value : UInt8}
    (hpush : stack.push value = .ok next) : next.capacity = stack.capacity := by
  obtain ⟨-, rfl⟩ := push_eq_ok_iff.mp hpush
  simp [capacity]

theorem capacity_of_pop {stack next : Stack} {value : UInt8}
    (hpop : stack.pop = .ok (value, next)) : next.capacity = stack.capacity := by
  obtain ⟨-, rfl⟩ := pop_eq_ok_iff.mp hpop
  rfl

theorem WellFormed.of_push {stack next : Stack} {value : UInt8}
    (hpush : stack.push value = .ok next) : next.WellFormed := by
  have hcapacity := capacity_of_push hpush
  obtain ⟨hlt, rfl⟩ := push_eq_ok_iff.mp hpush
  unfold WellFormed
  rw [hcapacity]
  exact hlt

theorem WellFormed.of_pop {stack next : Stack} {value : UInt8}
    (hpop : stack.pop = .ok (value, next)) : next.WellFormed := by
  obtain ⟨hpeek, rfl⟩ := pop_eq_ok_iff.mp hpop
  obtain ⟨-, hslot⟩ := peek_eq_ok_iff.mp hpeek
  obtain ⟨hlt, -⟩ := Array.getElem?_eq_some_iff.mp hslot
  exact Nat.le_of_lt hlt

end Octet.Stack
