import Octet.Cluster.Builder
import Octet.Source.Labels
import Octet.Source.Statement

/-! # From statements to program bytes

Statements are turned into bytes in one pass. The target of a branch to a label
that comes later is left zero and filled in at the end, and only if nothing was
wrong until then. Statements are no longer looked at when enough is known to be
wrong.
-/

namespace Octet

/-- A program under construction, its labels, and what is wrong with it, the last notice first. -/
structure Emission where
  builder : Builder
  labels : LabelTable
  notices : List Notice
  /-- Whether the program has outgrown its limit, after which nothing is added. -/
  full : Bool

/-- The bytes of some operands, with what is wrong with them. -/
structure OperandBytes where
  bytes : List UInt8
  labels : LabelTable
  /-- The last notice first. -/
  notices : List Notice

/-- Adds the bytes of an operand of the instruction at program offset `start`. -/
def OperandBytes.add (registers start : Nat) (done : OperandBytes) (operand : Operand) :
    OperandBytes :=
  let ⟨bytes, labels, notices⟩ := done
  match operand.value with
  | .register index =>
    let notices :=
      if registers ≤ index.toNat then
        ⟨operand.place, .invalidRegister index.toNat registers⟩ :: notices
      else notices
    ⟨bytes ++ [index], labels, notices⟩
  | .immediate value => ⟨bytes ++ [value], labels, notices⟩
  | .label name =>
    let (address, labels) := labels.reference name operand.place (start + 1 + bytes.length)
    let (low, high) := addressBytes address
    ⟨bytes ++ [low, high], labels, notices⟩

namespace Emission

/-- Defines the label of a statement, if it has one. A label that is defined already is noticed in
any case, since the statement would not have been looked at if there were enough notices. -/
def addLabel (emission : Emission) (place : Place) : Option String → Emission
  | none => emission
  | some name =>
    let ⟨builder, labels, notices, full⟩ := emission
    match labels.define name ⟨place, builder.code.size⟩ with
    | (some previous, labels) =>
      ⟨builder, labels, ⟨place, .duplicateLabel name previous.place⟩ :: notices, full⟩
    | (none, labels) => ⟨builder, labels, notices, full⟩

/-- Appends an instruction, unless one of its registers is not there. The labels it uses are noted
in either case. -/
def addInstruction (registers : Nat) (emission : Emission) (place : Place)
    (instruction : Instruction) : Emission :=
  let ⟨builder, labels, notices, full⟩ := emission
  let ⟨bytes, labels, found⟩ :=
    instruction.operands.foldl (OperandBytes.add registers builder.code.size) ⟨[], labels, []⟩
  if found.isEmpty then
    match builder.emit instruction.opcode.toByte bytes with
    | (.ok _, builder) => ⟨builder, labels, notices, full⟩
    | (.error .clusterTooLarge, builder) =>
      ⟨builder, labels, Notice.record notices ⟨place, .programTooLarge⟩, true⟩
    | (.error cause, builder) =>
      ⟨builder, labels, Notice.record notices ⟨place, .refusedInstruction cause.message⟩, full⟩
  else ⟨builder, labels, Notice.recordAll notices found.reverse, full⟩

/-- Whether nothing is added any more: the program has outgrown its limit, or enough is known to be
wrong. -/
def stopped (emission : Emission) : Bool := emission.full || Notice.enough emission.notices

/-- Adds a statement. -/
def addStatement (registers : Nat) (emission : Emission) (statement : Statement) : Emission :=
  if emission.stopped then emission
  else
    let emission := emission.addLabel statement.place statement.label
    match statement.instruction with
    | none => emission
    | some instruction => emission.addInstruction registers statement.place instruction

/-- Fills in a branch target that was left open. -/
def resolve (sites : LabelTable) (done : Builder × List Notice) (use : LabelUse) :
    Builder × List Notice :=
  let (builder, notices) := done
  match sites.site? use.name with
  | none => (builder, Notice.record notices ⟨use.place, .unresolvedLabel use.name⟩)
  | some site =>
    match builder.patch (Int64.ofNat use.position) (Int64.ofNat site.address) with
    | (.done, builder) => (builder, notices)
    | (.refused failure, builder) =>
      (builder, Notice.record notices ⟨use.place, .refusedTarget failure.message⟩)
    | (.escaped, builder) =>
      (builder, Notice.record notices ⟨use.place, .refusedTarget Cause.clusterTooLarge.message⟩)

/-- Fills in all branch targets that were left open, in the order of their uses. -/
def finish (emission : Emission) : Emission :=
  let ⟨builder, ⟨sites, pending⟩, notices, full⟩ := emission
  let (builder, notices) := pending.reverse.foldl (resolve ⟨sites, []⟩) (builder, notices)
  ⟨builder, ⟨sites, []⟩, notices, full⟩

end Emission

/-- Adds the statements to a program under construction, and fills in its open branch targets if
nothing is wrong. -/
def emitStatements (registers : Nat) (statements : List Statement) (builder : Builder)
    (labels : LabelTable) : Emission :=
  let emission := statements.foldl (Emission.addStatement registers) ⟨builder, labels, [], false⟩
  if emission.notices.isEmpty then emission.finish else emission

end Octet
