import Octet.Host.Console

/-! # Stacks of readers

Readers are put on top of each other. Bytes come from the top one until it has come to
the end of its bytes; then it is closed and removed, and the one below it is read. A
console can stand among them.
-/

namespace Octet

/-- What can stand on a stack of readers: a reader, or a console whose output can be flushed
whenever it is read. -/
inductive Inlet where
  | reader (source : Reader)
  | console (source : Console) (hflushes : source.flushes = none)
  deriving DecidableEq, Repr

instance : Coe Reader Inlet := ⟨.reader⟩

namespace Inlet

/-- The next byte, or why there is none. -/
def readByte : Inlet → Except Failure UInt8 × Inlet
  | reader source =>
    let (result, source) := source.readByte
    (result, reader source)
  | console source hflushes =>
    (source.readByte.1, console source.readByte.2 (Console.flushes_readByte hflushes))

/-- The name under which closing is noted; a console cannot be closed. -/
def name : Inlet → Option String
  | reader source => source.name
  | console _ _ => none

end Inlet

/-- A stack of readers, the top one first, and the names of those closed so far, the last one
first. -/
structure ReaderStack where
  readers : List Inlet
  closed : List String
  deriving DecidableEq, Repr

namespace ReaderStack

/-- The next byte of the top reader. A reader found at the end of its bytes is closed and removed,
and the one below it is read; one that ends in any other way stays. -/
def readByte (closed : List String) : List Inlet → Except Failure UInt8 × ReaderStack
  | [] => (.error (.cause .endOfFile), ⟨[], closed⟩)
  | top :: below =>
    match top.readByte with
    | (.ok value, top) => (.ok value, ⟨top :: below, closed⟩)
    | (.error failure, top) =>
      if failure.isEndOfFile then readByte (top.name.toList ++ closed) below
      else (.error failure, ⟨top :: below, closed⟩)

end ReaderStack

end Octet
