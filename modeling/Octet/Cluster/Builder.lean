import Octet.Cluster
import Octet.Failure

/-! # Building a program

A builder is the program under construction: instructions are appended, and the
two bytes of a branch target can be overwritten later. It also tells how much
room it has set aside, which grows by doubling and is kept when the content is
discarded.
-/

namespace Octet

/-- A program under construction. -/
structure Builder where
  /-- The bytes so far. -/
  code : Array UInt8
  /-- The number of bytes that room is set aside for. -/
  capacity : Nat
  deriving DecidableEq, Repr

namespace Builder

/-- A builder that has set no room aside. -/
def empty : Builder := ⟨#[], 0⟩

/-- The least room that is set aside. -/
def minCapacity : Nat := 64

/-- The first of `capacity`, its double, the double of that and so on that is at least `need`. -/
def doubleUntil (need capacity : Nat) : Nat :=
  if 0 < capacity ∧ capacity < need then doubleUntil need (2 * capacity) else capacity
termination_by need - capacity

/-- The room after a request for `need` bytes. -/
def grownCapacity (capacity need : Nat) : Nat :=
  if need ≤ capacity then capacity else doubleUntil need (max (2 * capacity) minCapacity)

/-- Appends an instruction: its code and the bytes of its operands, whose number has to be the one
that the code asks for. A refused instruction changes nothing. -/
def emit (builder : Builder) (code : UInt8) (operands : List UInt8) :
    Except Cause Unit × Builder :=
  match Opcode.ofByte? code with
  | none => (.error (.unknownOpcode code), builder)
  | some opcode =>
    if operands.length + 1 ≠ opcode.size then
      (.error (.operandBytes opcode.name (opcode.size - 1) operands.length), builder)
    else
      let need := builder.code.size + (operands.length + 1)
      if maxClusterSize < need then (.error .clusterTooLarge, builder)
      else
        let ⟨bytes, capacity⟩ := builder
        (.ok (), ⟨operands.foldl Array.push (bytes.push code), grownCapacity capacity need⟩)

/-- What became of a request to overwrite a branch target. -/
inductive Patched where
  | done
  | refused (failure : Failure)
  /-- The request passed the range check and still lies outside the program. -/
  | escaped
  deriving DecidableEq, Repr

/-- Overwrites the two bytes at `position` with a branch target. Both numbers are machine words,
and the end of the two bytes is computed as one, so for the two largest positions it wraps
around below zero and passes the range check. -/
def patch (builder : Builder) (position address : Int64) : Patched × Builder :=
  if position < 0 ∨ Int64.ofNat builder.code.size < position + 2 then
    (.refused (.cause (.patchOffset position.toInt builder.code.size)), builder)
  else if address < 0 ∨ 65535 < address then
    (.refused (.context s!"address {address.toInt}" (.cause .clusterTooLarge)), builder)
  else
    let start := position.toInt.toNat
    if start + 2 ≤ builder.code.size then
      let (low, high) := addressBytes address.toInt
      let ⟨bytes, capacity⟩ := builder
      (.done, ⟨(bytes.setIfInBounds start low).setIfInBounds (start + 1) high, capacity⟩)
    else (.escaped, builder)

/-- Discards the content and keeps the room. -/
def reset (builder : Builder) : Builder := ⟨#[], builder.capacity⟩

/-- The finished program; the builder starts again without any room. -/
def freeze (builder : Builder) : Cluster × Builder := (Cluster.ofCode builder.code, empty)

end Builder

end Octet
