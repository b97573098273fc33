import Octet.Host.Stack
import Octet.Machine.Step
import Octet.Writer

/-! # A host and its channels

The host of a machine as it is used by programs: input comes from the console, from
given bytes, from a reader or from a stack of readers; output goes to the
console, nowhere, or to a destination that keeps what it receives and may refuse
more. Everything that the host received or closed is kept for inspection.
-/

namespace Octet

/-- Where input comes from. -/
inductive InputSource where
  /-- The console of the host. -/
  | console
  | bytes (data : List UInt8)
  | reader (source : Reader)
  | buffered (source : BufferedReader)
  /-- A stack of readers, the top one first. -/
  | stack (readers : List Inlet)
  /-- A source that refuses every call. -/
  | failing (failure : Failure)
  /-- A source that breaks off every call with a failure. -/
  | breaking (failure : Failure)
  /-- A source that breaks off every call with a text. -/
  | breakingText (text : String)
  deriving DecidableEq, Repr

/-- The source that asks a reader for bytes; without a reader there are none. -/
def InputSource.ofReader : Option Reader → InputSource
  | none => .bytes []
  | some source => .reader source

/-- The source that asks a reader through a buffer. There is no buffer without a reader: such a
source breaks off. -/
def InputSource.ofBuffered : Option Reader → InputSource
  | none =>
    .breaking (.cause (.other
      "runtime error: invalid memory address or nil pointer dereference"))
  | some source => .buffered ⟨source, none⟩

/-- Where output goes to. -/
inductive OutputSink where
  /-- The console of the host. -/
  | console
  | discard
  /-- A destination that keeps each text, and of one that is too long for it the part that fits. -/
  | limited (room : Option Nat)
  /-- A destination that keeps a number of texts and refuses the others. -/
  | counted (left : Option Nat)
  deriving DecidableEq, Repr

/-- An output channel: where it goes to and the texts it has received, the last one first. -/
structure OutputChannel where
  sink : OutputSink
  received : List (List UInt8)
  /-- The texts that went to the console. -/
  console : List (List UInt8)
  deriving DecidableEq, Repr

namespace OutputChannel

/-- Sends a text; `refusal` is what a destination reports that does not take it. -/
def send (refusal : Failure) (channel : OutputChannel) (text : List UInt8) :
    Reply Unit × OutputChannel :=
  let ⟨sink, received, console⟩ := channel
  match sink with
  | .console => (.ok (), ⟨.console, received, text :: console⟩)
  | .discard => (.ok (), ⟨.discard, received, console⟩)
  | .limited room =>
    match Limited.write text ⟨room, refusal, received⟩ with
    | (⟨_, none⟩, ⟨room, _, received⟩) => (.ok (), ⟨.limited room, received, console⟩)
    | (⟨_, some failure⟩, ⟨room, _, received⟩) =>
      (.refused failure, ⟨.limited room, received, console⟩)
  | .counted none => (.ok (), ⟨.counted none, text :: received, console⟩)
  | .counted (some 0) => (.refused refusal, ⟨.counted (some 0), received, console⟩)
  | .counted (some (left + 1)) =>
    (.ok (), ⟨.counted (some left), text :: received, console⟩)

/-- The channel without what it has received. -/
def drained (channel : OutputChannel) : OutputChannel := ⟨channel.sink, [], []⟩

end OutputChannel

/-- The state of a host. -/
structure Host where
  input : InputSource
  /-- What is left to read on the console. -/
  console : List UInt8
  output : OutputChannel
  error : OutputChannel
  /-- What destinations report that refuse a text. -/
  refusal : Failure
  /-- The names of the readers closed so far, the last one first. -/
  closed : List String
  deriving DecidableEq, Repr

namespace Host

/-- What a source replies with. -/
def replyOf : Except Failure UInt8 → Reply UInt8
  | .ok value => .ok value
  | .error failure => .refused failure

/-- The next byte of some bytes. -/
def takeByte : List UInt8 → Reply UInt8 × List UInt8
  | [] => (.refused (.cause .endOfFile), [])
  | byte :: rest => (.ok byte, rest)

/-- Reads a byte of input. -/
def read (host : Host) : Reply UInt8 × Host :=
  match host.input with
  | .console =>
    let (reply, rest) := takeByte host.console
    (reply, { host with console := rest })
  | .bytes data =>
    let (reply, rest) := takeByte data
    (reply, { host with input := .bytes rest })
  | .reader reader =>
    let (result, reader) := reader.readByte
    (replyOf result, { host with input := .reader reader })
  | .buffered reader =>
    let (result, reader) := reader.readByte
    (replyOf result, { host with input := .buffered reader })
  | .stack readers =>
    let (result, ⟨readers, closed⟩) := ReaderStack.readByte host.closed readers
    (replyOf result, { host with input := .stack readers, closed })
  | .failing failure => (.refused failure, host)
  | .breaking failure => (.broken failure, host)
  | .breakingText text => (.brokenText text, host)

/-- Sends a text to a channel. -/
def write (channel : Channel) (text : List UInt8) (host : Host) : Reply Unit × Host :=
  let ⟨input, console, output, error, refusal, closed⟩ := host
  match channel with
  | .output =>
    let (reply, output) := output.send refusal text
    (reply, ⟨input, console, output, error, refusal, closed⟩)
  | .error =>
    let (reply, error) := error.send refusal text
    (reply, ⟨input, console, output, error, refusal, closed⟩)

/-- A host as the device of a machine. -/
def device : Device Host := ⟨read, write⟩

/-- Takes input from another source. -/
def redirectInput (host : Host) (source : InputSource) : Host := { host with input := source }

/-- Puts a reader on top of the stack of readers. Input that comes from anywhere else is replaced by
a new stack, also when there is no reader to put on it. -/
def pushReader (host : Host) (reader : Option Inlet) : Host :=
  let readers :=
    match host.input with
    | .stack readers => readers
    | _ => []
  { host with input := .stack (reader.toList ++ readers) }

/-- Sends a channel to another destination. -/
def redirect (host : Host) (channel : Channel) (sink : OutputSink) : Host :=
  match channel with
  | .output => { host with output := { host.output with sink } }
  | .error => { host with error := { host.error with sink } }

/-- The host without what it has received and closed. -/
def drained (host : Host) : Host :=
  { host with output := host.output.drained, error := host.error.drained, closed := [] }

end Host

end Octet
