import Octet.Host.Reader

/-! # The interactive console

The console is read one byte at a time. Output that is still held back is flushed
before each byte, so that prompts show up. On a raw terminal the end of the input
is a byte of its own.
-/

namespace Octet

/-- The byte that ends the input on a raw terminal. -/
def endOfTransmission : UInt8 := 4

/-- The state of a console. -/
structure Console where
  /-- Where bytes come from; without a reader there are none. -/
  reader : Option Reader
  /-- Whether the terminal is raw. -/
  raw : Bool
  /-- How many more flushes succeed, if there is a limit. -/
  flushes : Option Nat
  /-- What a flush reports that fails. -/
  refusal : Failure
  /-- The number of flushes that succeeded. -/
  flushed : Nat
  deriving DecidableEq, Repr

namespace Console

/-- Flushes the output. -/
def flush (console : Console) : Option Failure × Console :=
  match console.flushes with
  | none => (none, { console with flushed := console.flushed + 1 })
  | some 0 => (some console.refusal, console)
  | some (left + 1) => (none, { console with flushes := some left, flushed := console.flushed + 1 })

/-- Reads a byte. -/
def readByte (console : Console) : Except Failure UInt8 × Console :=
  match console.flush with
  | (some failure, console) => (.error failure, console)
  | (none, console) =>
    match console.reader with
    | none => (.error (.cause .endOfFile), console)
    | some reader =>
      let (result, reader) := reader.readByte
      let console := { console with reader := some reader }
      match result with
      | .ok byte =>
        if console.raw ∧ byte = endOfTransmission then (.error (.cause .endOfFile), console)
        else (.ok byte, console)
      | .error failure => (.error failure, console)

/-- Reading does not limit the flushes. -/
theorem flushes_readByte {console : Console} (hflushes : console.flushes = none) :
    console.readByte.2.flushes = none := by
  simp only [readByte, flush, hflushes]
  split
  next => rfl
  next =>
    split
    next => split <;> rfl
    next => rfl

/-- Reads into a buffer of `size` bytes: one byte at most, and none if there is no room, in which
case nothing is flushed. -/
def read (console : Console) (size : Nat) : Except Failure (List UInt8) × Console :=
  if size = 0 then (.ok [], console)
  else
    let (result, console) := console.readByte
    (result.map ([·]), console)

end Console

end Octet
