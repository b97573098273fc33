import Octet.Failure

/-! # Readers

A reader delivers a finite number of bytes and then says, again and again, why it
delivers no more. A direct reader is asked for a byte and answers. A reader that
is not direct is polled: a poll may deliver nothing although the reader is not at
its end, and the last byte may come together with the end.
-/

namespace Octet

/-- A byte that a reader delivers after some polls that deliver nothing. -/
structure Delivery where
  pauses : Nat
  byte : UInt8
  deriving DecidableEq, Repr

/-- The state of a reader. -/
structure Reader where
  /-- Whether the reader answers without being polled. -/
  direct : Bool
  /-- The bytes still to come. -/
  deliveries : List Delivery
  /-- What the reader reports after its last byte. -/
  ending : Failure
  /-- The number of polls that deliver nothing before each report of the end. -/
  endPauses : Nat
  /-- Whether the last byte comes together with the end. -/
  joined : Bool
  /-- The number of polls since the last that delivered something. -/
  polled : Nat
  /-- The name under which closing the reader is noted; a reader without one cannot be closed. -/
  name : Option String
  deriving DecidableEq, Repr

/-- What a poll delivers. -/
inductive Poll where
  | nothing
  | byte (value : UInt8)
  /-- The last byte together with the end. -/
  | last (value : UInt8) (ending : Failure)
  | ended (ending : Failure)
  deriving DecidableEq, Repr

namespace Reader

/-- A direct reader of some bytes. -/
def ofBytes (bytes : List UInt8) (name : Option String) : Reader :=
  { direct := true
    deliveries := bytes.map (Delivery.mk 0)
    ending := .cause .endOfFile
    endPauses := 0
    joined := false
    polled := 0
    name }

/-- A reader that is polled, with `pauses` polls that deliver nothing before each that does. -/
def polling (bytes : List UInt8) (ending : Failure) (pauses : Nat) (joined : Bool)
    (name : Option String) : Reader :=
  { direct := false
    deliveries := bytes.map (Delivery.mk pauses)
    ending
    endPauses := pauses
    joined
    polled := 0
    name }

/-- The number of polls that deliver nothing before the next one that does. -/
def pauses (reader : Reader) : Nat :=
  match reader.deliveries with
  | [] => reader.endPauses
  | delivery :: _ => delivery.pauses

/-- Polls a reader. -/
def poll (reader : Reader) : Poll × Reader :=
  if reader.polled < reader.pauses then
    (.nothing, { reader with polled := reader.polled + 1 })
  else
    match reader.deliveries with
    | [] => (.ended reader.ending, { reader with polled := 0 })
    | delivery :: rest =>
      let next := { reader with deliveries := rest, polled := 0 }
      if reader.joined ∧ rest.isEmpty then (.last delivery.byte reader.ending, next)
      else (.byte delivery.byte, next)

/-- The number of polls in a row that are still to deliver nothing. -/
def waiting (reader : Reader) : Nat := reader.pauses - reader.polled

/-- A poll that delivers nothing is one that there is no more to wait for. -/
theorem waiting_lt_of_poll {reader next : Reader} (hpoll : reader.poll = (.nothing, next)) :
    next.waiting < reader.waiting := by
  unfold poll at hpoll
  split at hpoll
  next hpaused =>
    obtain ⟨-, rfl⟩ := Prod.mk.inj hpoll
    exact Nat.sub_lt_sub_left hpaused (Nat.lt_succ_self _)
  next =>
    split at hpoll
    next => cases hpoll
    next =>
      dsimp only at hpoll
      split at hpoll <;> cases hpoll

/-- Polls a reader until it delivers a byte or reports its end. An end that comes together with the
last byte is not lost, since the reader reports it again. -/
def pollByte (reader : Reader) : Except Failure UInt8 × Reader :=
  match _hpoll : reader.poll with
  | (.nothing, next) => pollByte next
  | (.byte value, next) => (.ok value, next)
  | (.last value _, next) => (.ok value, next)
  | (.ended ending, next) => (.error ending, next)
termination_by reader.waiting
decreasing_by exact waiting_lt_of_poll _hpoll

/-- The next byte of a direct reader. -/
def takeByte (reader : Reader) : Except Failure UInt8 × Reader :=
  match reader.deliveries with
  | [] => (.error reader.ending, reader)
  | delivery :: rest => (.ok delivery.byte, { reader with deliveries := rest })

/-- The next byte of a reader, or why there is none. -/
def readByte (reader : Reader) : Except Failure UInt8 × Reader :=
  if reader.direct then reader.takeByte else reader.pollByte

end Reader

/-- A reader behind a buffer, with the end that came together with a byte and has not been reported
yet. -/
structure BufferedReader where
  reader : Reader
  pending : Option Failure
  deriving DecidableEq, Repr

namespace BufferedReader

/-- The number of polls in a row that may deliver nothing. -/
def patience : Nat := 100

/-- Polls the reader until it delivers something, at most `attempts` times. -/
def fill : Nat → Reader → Except Failure UInt8 × BufferedReader
  | 0, reader => (.error (.cause .noProgress), ⟨reader, none⟩)
  | attempts + 1, reader =>
    match reader.poll with
    | (.nothing, reader) => fill attempts reader
    | (.byte value, reader) => (.ok value, ⟨reader, none⟩)
    | (.last value ending, reader) => (.ok value, ⟨reader, some ending⟩)
    | (.ended ending, reader) => (.error ending, ⟨reader, none⟩)

/-- The next byte. An end that came together with a byte is reported once, after that byte; then the
reader is asked again. -/
def readByte (buffered : BufferedReader) : Except Failure UInt8 × BufferedReader :=
  match buffered.pending with
  | some ending => (.error ending, ⟨buffered.reader, none⟩)
  | none => fill patience buffered.reader

end BufferedReader

end Octet
