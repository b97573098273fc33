import Octet.Cluster
import Octet.Writer

/-! # Programs as text

One instruction is shown by its name and its operands, branch targets as plain
numbers. A byte that starts no complete instruction is shown by its value and
takes one position. The text comes in pieces, because each piece is a write of
its own.
-/

namespace Octet

/-- An operand as text; `position` is where its bytes start. -/
def operandText (code : Array UInt8) (position : Nat) : OperandKind → String
  | .register => "r" ++ toString (code.getD position 0).toNat
  | .immediate => toString (code.getD position 0).toNat
  | .label => toString (addressOfBytes (code.getD position 0) (code.getD (position + 1) 0))

/-- The pieces of the operands of the given kinds, each after its separator, and the position that
is reached behind the last of them; the first one is separated from the name by a blank. -/
def operandPieces (code : Array UInt8) (position : Nat) (separator : String) :
    List OperandKind → List String × Nat
  | [] => ([], position)
  | kind :: kinds =>
    let (pieces, next) := operandPieces code (position + kind.size) ", " kinds
    (separator :: operandText code position kind :: pieces, next)

/-- The operands take the bytes of their kinds, one behind the other. -/
theorem operandPieces_next (code : Array UInt8) (position : Nat) (separator : String)
    (kinds : List OperandKind) :
    (operandPieces code position separator kinds).2 =
      position + OperandKind.totalSize kinds := by
  induction kinds generalizing position separator with
  | nil => rfl
  | cons kind kinds ih =>
      rw [OperandKind.totalSize, ← Nat.add_assoc]
      exact ih (position + kind.size) ", "

/-- The pieces that show the byte at `pc`, which is `byte`, and the position after what they
show. -/
def instructionPieces (code : Array UInt8) (pc : Nat) (byte : UInt8) : List String × Nat :=
  let unknown := (["??? 0x" ++ hexByte byte], pc + 1)
  match Opcode.ofByte? byte with
  | none => unknown
  | some opcode =>
    if code.size < pc + opcode.size then unknown
    else
      let (pieces, next) := operandPieces code (pc + 1) " " opcode.operands
      (opcode.name :: pieces, next)
where
  /-- A byte as two digits in base sixteen. -/
  hexByte (byte : UInt8) : String :=
    String.ofList [Nat.digitChar (byte.toNat / 16), Nat.digitChar (byte.toNat % 16)]

/-- The pieces at a position of the program and the position after what they show; none outside
of the program. -/
def disassembleAt? (code : Array UInt8) (pc : Nat) : Option (List String × Nat) :=
  code[pc]?.map (instructionPieces code pc)

/-- A line is shown inside of the program only, and the next one starts behind it. -/
theorem lt_next_of_disassembleAt? {code : Array UInt8} {pc next : Nat} {pieces : List String}
    (hline : disassembleAt? code pc = some (pieces, next)) : pc < code.size ∧ pc < next := by
  unfold disassembleAt? at hline
  obtain ⟨byte, hbyte, hpieces⟩ := Option.map_eq_some_iff.mp hline
  refine ⟨(Array.getElem?_eq_some_iff.mp hbyte).1, ?_⟩
  have hnext : next = (instructionPieces code pc byte).2 := by rw [hpieces]
  subst hnext
  unfold instructionPieces
  split
  · exact Nat.lt_succ_self pc
  · split
    · exact Nat.lt_succ_self pc
    · simp only [operandPieces_next]
      omega

/-- The column that names a position: the number, right-aligned in six places, always after a
blank, and a tabulator. -/
def offsetColumn (pc : Nat) : String :=
  let text := " " ++ toString pc
  String.ofList (List.replicate (6 - text.length) ' ') ++ text ++ "\t"

/-- The pieces of the lines from `pc` on, after those in `done`, which has the last one first. -/
def listingFrom (code : Array UInt8) (pc : Nat) (done : List (List String)) : List String :=
  match _hline : disassembleAt? code pc with
  | none => done.reverse.flatten
  | some (pieces, next) =>
    listingFrom code next ((offsetColumn pc :: pieces ++ ["\n"]) :: done)
termination_by code.size - pc
decreasing_by
  have := lt_next_of_disassembleAt? _hline
  omega

/-- The pieces of a whole program, one line for each instruction or stray byte. -/
def Cluster.listing (cluster : Cluster) : List String := listingFrom cluster.code 0 []

/-- Writes one instruction to an outlet, whose failures are tracked; the position after it does not
depend on whether the writing fails. -/
def disassembleTo? {σ : Type} (writer : Writer σ) (code : Array UInt8) (pc : Nat)
    (outlet : Outlet σ) : Option (Nat × Outlet σ) :=
  (disassembleAt? code pc).map fun (pieces, next) => (next, outlet.track.writeAll writer pieces)

theorem lt_next_of_disassembleTo? {σ : Type} {writer : Writer σ} {code : Array UInt8}
    {pc next : Nat} {outlet after : Outlet σ}
    (hline : disassembleTo? writer code pc outlet = some (next, after)) :
    pc < code.size ∧ pc < next := by
  obtain ⟨⟨pieces, found⟩, hpieces, hsame⟩ := Option.map_eq_some_iff.mp hline
  obtain ⟨rfl, -⟩ := Prod.mk.inj hsame
  exact lt_next_of_disassembleAt? hpieces

/-- Writes the lines from `pc` on to an outlet: the column of the position, the instruction, and the
end of the line. The line in which a write fails is the last one. -/
def linesTo {σ : Type} (writer : Writer σ) (code : Array UInt8) (pc : Nat) (outlet : Outlet σ) :
    Outlet σ :=
  match _hline : disassembleTo? writer code pc
      (outlet.write writer (utf8Bytes (offsetColumn pc))).2 with
  | none => outlet
  | some (next, line) =>
    let line := (line.write writer (utf8Bytes "\n")).2
    if line.failure.isSome then line else linesTo writer code next line
termination_by code.size - pc
decreasing_by
  have := lt_next_of_disassembleTo? _hline
  omega

/-- Writes a whole program to an outlet. -/
def Cluster.disassembleTo {σ : Type} (writer : Writer σ) (cluster : Cluster)
    (outlet : Outlet σ) : Outlet σ :=
  linesTo writer cluster.code 0 outlet.track

end Octet
