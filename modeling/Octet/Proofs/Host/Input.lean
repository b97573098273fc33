import Mathlib.Tactic.Common
import Octet.Host.Channels

/-! # What the input of a host delivers

As far as a machine can tell, the input of a host is some bytes and then its end,
wherever they come from. Output does not touch it. A reader that is put on top of an
input that has come to its end makes it deliver the bytes of the reader.
-/

namespace Octet

/-! ### Readers -/

/-- What a poll delivers to someone who waits for a byte or for the end. -/
def Poll.reply? : Poll → Option (Except Failure UInt8)
  | .nothing => none
  | .byte value | .last value _ => some (.ok value)
  | .ended ending => some (.error ending)

namespace Reader

/-- The bytes that a reader is still to deliver. -/
def bytes (reader : Reader) : List UInt8 := reader.deliveries.map Delivery.byte

theorem bytes_ofBytes (bytes : List UInt8) (name : Option String) :
    (ofBytes bytes name).bytes = bytes := by
  simp [Reader.bytes, ofBytes, Function.comp_def]

/-- What a reader answers, in either way of reading it: its next byte, or its end. -/
def answer (reader : Reader) : Except Failure UInt8 :=
  match reader.deliveries with
  | [] => .error reader.ending
  | delivery :: _ => .ok delivery.byte

/-- What a poll can do: nothing but to be counted, or to deliver what the reader answers. -/
theorem poll_cases {reader next : Reader} {poll : Poll} (hpoll : reader.poll = (poll, next)) :
    (poll = .nothing ∧ next = { reader with polled := reader.polled + 1 }) ∨
      (poll.reply? = some reader.answer ∧
        next = { reader with deliveries := reader.deliveries.tail, polled := 0 }) := by
  unfold Reader.poll at hpoll
  split at hpoll
  next =>
    obtain ⟨rfl, rfl⟩ := Prod.mk.inj hpoll
    exact .inl ⟨rfl, rfl⟩
  next =>
    refine .inr ?_
    split at hpoll
    next hdeliveries =>
      obtain ⟨rfl, rfl⟩ := Prod.mk.inj hpoll
      simp [Poll.reply?, answer, hdeliveries]
    next delivery rest hdeliveries =>
      dsimp only at hpoll
      split at hpoll
      all_goals
        obtain ⟨rfl, rfl⟩ := Prod.mk.inj hpoll
        simp [Poll.reply?, answer, hdeliveries]

/-- Polls that deliver nothing only take time. -/
theorem pollByte_eq (reader : Reader) :
    reader.pollByte =
      (reader.answer, { reader with deliveries := reader.deliveries.tail, polled := 0 }) := by
  fun_induction pollByte reader with
  | case1 reader next hpoll ih =>
      rcases poll_cases hpoll with ⟨-, rfl⟩ | ⟨hreply, -⟩
      · exact ih
      · cases hreply
  | case2 reader value next hpoll | case3 reader value ending next hpoll
  | case4 reader ending next hpoll =>
      rcases poll_cases hpoll with ⟨hnothing, -⟩ | ⟨hreply, rfl⟩
      · cases hnothing
      · exact congrArg (Prod.mk · _) (Option.some.inj hreply)

/-- In either way of reading a reader, it loses the byte that it answers with and nothing else. -/
theorem exists_readByte_eq (reader : Reader) :
    ∃ polled, reader.readByte =
      (reader.answer, { reader with deliveries := reader.deliveries.tail, polled }) := by
  unfold readByte
  split
  · refine ⟨reader.polled, ?_⟩
    obtain ⟨direct, deliveries, ending, endPauses, joined, polled, name⟩ := reader
    cases deliveries <;> rfl
  · exact ⟨0, reader.pollByte_eq⟩

end Reader

/-! ### Supplies -/

/-- What is left of a reader, as far as anyone who reads it can tell. -/
structure Supply where
  bytes : List UInt8
  ending : Failure
  name : Option String
  deriving DecidableEq, Repr

/-- What a raw terminal makes of a supply: it ends before the byte that says so. -/
def Supply.marked (supply : Supply) : Supply :=
  if endOfTransmission ∈ supply.bytes then
    { supply with
      bytes := supply.bytes.takeWhile (· ≠ endOfTransmission)
      ending := .cause .endOfFile }
  else supply

/-- The end of the input is not looked for in a byte that does not say so. -/
theorem Supply.marked_cons {byte : UInt8} (hother : byte ≠ endOfTransmission) (rest : List UInt8)
    (ending : Failure) (name : Option String) :
    (Supply.mk (byte :: rest) ending name).marked =
      { (Supply.mk rest ending name).marked with
        bytes := byte :: (Supply.mk rest ending name).marked.bytes } := by
  by_cases hmark : endOfTransmission ∈ rest
  · simp [marked, hmark, hother]
  · simp [marked, hmark, hother.symm]

def Reader.supply (reader : Reader) : Supply := ⟨reader.bytes, reader.ending, reader.name⟩

/-- What is left of a console. -/
def Console.supply (console : Console) : Supply :=
  match console.reader with
  | none => ⟨[], .cause .endOfFile, none⟩
  | some reader =>
    let supply : Supply := ⟨reader.bytes, reader.ending, none⟩
    if console.raw then supply.marked else supply

def Inlet.supply : Inlet → Supply
  | .reader source => source.supply
  | .console source _ => source.supply

/-- Something that is read has come from a supply to what is left of it: it has given the next byte,
or it has given its end. After the plain end nothing is said of it. -/
def Supply.Gives (supply : Supply) (result : Except Failure UInt8) (left : Supply) : Prop :=
  match supply.bytes with
  | byte :: rest => result = .ok byte ∧ left = { supply with bytes := rest }
  | [] => result = .error supply.ending ∧ left.name = supply.name ∧
      (supply.ending ≠ .cause .endOfFile → left = supply)

/-- A reader gives what is left of it, byte by byte. -/
theorem Reader.gives_readByte (reader : Reader) :
    reader.supply.Gives reader.readByte.1 reader.readByte.2.supply := by
  obtain ⟨polled, hread⟩ := reader.exists_readByte_eq
  rw [hread]
  cases hdeliveries : reader.deliveries with
  | nil => simp [Supply.Gives, supply, bytes, answer, hdeliveries]
  | cons delivery rest => simp [Supply.Gives, supply, bytes, answer, hdeliveries]

/-- A console whose output can be flushed reads its reader, and takes a byte for the end on a raw
terminal. -/
theorem Console.readByte_of_reader {console : Console} (hflushes : console.flushes = none)
    {reader : Reader} (hreader : console.reader = some reader) :
    console.readByte =
      (match reader.readByte.1 with
        | .ok byte =>
          if console.raw ∧ byte = endOfTransmission then .error (.cause .endOfFile) else .ok byte
        | .error failure => .error failure,
        { console with
          reader := some reader.readByte.2
          flushed := console.flushed + 1 }) := by
  simp only [readByte, flush, hflushes, hreader]
  cases reader.readByte.1 with
  | error failure => rfl
  | ok byte =>
      dsimp only
      split <;> rfl

theorem Console.name_supply (console : Console) : console.supply.name = none := by
  unfold supply
  split
  next => rfl
  next =>
    dsimp only [Supply.marked]
    split <;> (try split) <;> rfl

/-- A console gives what its reader gives, and on a raw terminal its end when it is told to. -/
theorem Console.gives_readByte {console : Console} (hflushes : console.flushes = none) :
    console.supply.Gives console.readByte.1 console.readByte.2.supply := by
  cases hreader : console.reader with
  | none =>
      simp [Supply.Gives, supply, hreader, readByte, flush, hflushes]
  | some reader =>
      obtain ⟨polled, hread⟩ := reader.exists_readByte_eq
      rw [readByte_of_reader hflushes hreader, hread]
      cases hdeliveries : reader.deliveries with
      | nil =>
          simp [Supply.Gives, Supply.marked, supply, hreader, Reader.bytes, Reader.answer,
            hdeliveries]
      | cons delivery rest =>
          by_cases hended : console.raw ∧ delivery.byte = endOfTransmission
          · -- the terminal says that the input has ended
            have hsupply : console.supply = ⟨[], .cause .endOfFile, none⟩ := by
              simp [supply, Supply.marked, hreader, Reader.bytes, hdeliveries, hended]
            rw [hsupply]
            simp [Supply.Gives, Reader.answer, hdeliveries, hended, name_supply]
          · cases hraw : console.raw with
            | false =>
                simp [Supply.Gives, supply, hreader, Reader.bytes, Reader.answer, hdeliveries, hraw]
            | true =>
                have hother : delivery.byte ≠ endOfTransmission := fun h => hended ⟨hraw, h⟩
                simp [Supply.Gives, supply, hreader, Reader.bytes, Reader.answer, hdeliveries, hraw,
                  Supply.marked_cons hother, hother]

/-- What stands on a stack gives what is left of it. -/
theorem Inlet.gives_readByte (inlet : Inlet) :
    inlet.supply.Gives inlet.readByte.1 inlet.readByte.2.supply := by
  cases inlet with
  | reader source => exact source.gives_readByte
  | console source hflushes => exact Console.gives_readByte hflushes

theorem Inlet.name_supply (inlet : Inlet) : inlet.supply.name = inlet.name := by
  cases inlet with
  | reader source => rfl
  | console source hflushes => exact source.name_supply

/-- What a stack of readers answers does not depend on the names of those closed before. -/
theorem ReaderStack.readByte_closed (closed others : List String) (readers : List Inlet) :
    (readByte closed readers).1 = (readByte others readers).1 ∧
      (readByte closed readers).2.readers = (readByte others readers).2.readers := by
  induction readers generalizing closed others with
  | nil => exact ⟨rfl, rfl⟩
  | cons top below ih =>
      simp only [readByte]
      split
      next => exact ⟨rfl, rfl⟩
      next =>
        split
        · exact ih _ _
        · exact ⟨rfl, rfl⟩

/-! ### Hosts -/

namespace Host

/-- The host after it was asked for a number of bytes. -/
def afterReads : Nat → Host → Host
  | 0, host => host
  | count + 1, host => afterReads count host.read.2

/-- What a machine sees of the input is the given bytes and then the end, however often it asks. -/
def Delivers (host : Host) (bytes : List UInt8) : Prop :=
  ∀ count, Machine.inputReply (host.afterReads count).read.1 =
    bytes[count]?.elim (.refused (.cause .endOfInput)) .ok

/-- Nothing is delivered exactly if the end is answered, now and from then on. -/
theorem delivers_nil_iff {host : Host} :
    host.Delivers [] ↔
      Machine.inputReply host.read.1 = .refused (.cause .endOfInput) ∧ host.read.2.Delivers [] := by
  constructor
  · intro hdelivers
    exact ⟨hdelivers 0, fun count => hdelivers (count + 1)⟩
  · rintro ⟨hreply, hrest⟩ count
    cases count with
    | zero => exact hreply
    | succ count => exact hrest count

/-- A byte is delivered first exactly if it is answered now and the others after it. -/
theorem delivers_cons_iff {host : Host} {byte : UInt8} {bytes : List UInt8} :
    host.Delivers (byte :: bytes) ↔
      Machine.inputReply host.read.1 = .ok byte ∧ host.read.2.Delivers bytes := by
  constructor
  · intro hdelivers
    exact ⟨hdelivers 0, fun count => hdelivers (count + 1)⟩
  · rintro ⟨hreply, hrest⟩ count
    cases count with
    | zero => exact hreply
    | succ count => exact hrest count

/-- Nothing but the source of the input and the console bears on what is read. -/
theorem read_congr {host other : Host} (hinput : host.input = other.input)
    (hconsole : host.console = other.console) :
    host.read.1 = other.read.1 ∧ host.read.2.input = other.read.2.input ∧
      host.read.2.console = other.read.2.console := by
  simp only [read, ← hinput, ← hconsole]
  cases hsource : host.input with
  | stack readers =>
      obtain ⟨hresult, hreaders⟩ := ReaderStack.readByte_closed host.closed other.closed readers
      exact ⟨congrArg replyOf hresult, congrArg InputSource.stack hreaders, rfl⟩
  | console | bytes | reader | buffered | failing | breaking | breakingText =>
      simp [hconsole, hinput]

/-- Two hosts with the same input deliver the same. -/
theorem Delivers.congr {host other : Host} {bytes : List UInt8} (hdelivers : host.Delivers bytes)
    (hinput : other.input = host.input) (hconsole : other.console = host.console) :
    other.Delivers bytes := by
  have hsame (count : Nat) : (other.afterReads count).input = (host.afterReads count).input ∧
      (other.afterReads count).console = (host.afterReads count).console := by
    clear hdelivers
    induction count generalizing host other with
    | zero => exact ⟨hinput, hconsole⟩
    | succ count ih =>
        obtain ⟨-, hnext, hleft⟩ := read_congr hinput hconsole
        exact ih hnext hleft
  intro count
  rw [(read_congr (hsame count).1 (hsame count).2).1]
  exact hdelivers count

/-- Bytes that the input is redirected to are delivered. -/
theorem delivers_bytes (host : Host) (data : List UInt8) :
    (host.redirectInput (.bytes data)).Delivers data := by
  induction data with
  | nil =>
      intro count
      induction count with
      | zero => rfl
      | succ count ih => exact ih
  | cons byte data ih => exact delivers_cons_iff.mpr ⟨rfl, ih⟩

/-! ### Readers on top -/

/-- The host with a stack of readers as its input. -/
def withReaders (host : Host) (readers : List Inlet) : Host :=
  { host with input := .stack readers }

theorem delivers_withReaders_nil (host : Host) : (host.withReaders []).Delivers [] := by
  intro count
  induction count with
  | zero => rfl
  | succ count ih => exact ih

/-- A host that answers as another one does delivers what the other one delivers. -/
theorem Delivers.of_read_eq {host other : Host} {bytes : List UInt8}
    (hdelivers : other.Delivers bytes) (hread : host.read = other.read) : host.Delivers bytes := by
  intro count
  cases count with
  | zero =>
      rw [afterReads, hread]
      exact hdelivers 0
  | succ count =>
      rw [afterReads, hread]
      exact hdelivers (count + 1)

/-- A reader on top of a stack delivers its bytes, and then the stack delivers what it did. -/
theorem Delivers.withReaders_cons {host : Host} {readers : List Inlet} {rest : List UInt8}
    (hbelow : (host.withReaders readers).Delivers rest) {inlet : Inlet}
    (hending : inlet.supply.ending = .cause .endOfFile) :
    (host.withReaders (inlet :: readers)).Delivers (inlet.supply.bytes ++ rest) := by
  have hgives := inlet.gives_readByte
  rcases hnext : inlet.readByte with ⟨result, next⟩
  rw [hnext] at hgives
  unfold Supply.Gives at hgives
  cases hbytes : inlet.supply.bytes with
  | nil =>
      -- the reader is closed and removed, and what is below it is asked for the same byte
      simp only [hbytes, hending] at hgives
      obtain ⟨rfl, -⟩ := hgives
      have hread : (host.withReaders (inlet :: readers)).read =
          ({ host with closed := next.name.toList ++ host.closed }.withReaders readers).read := by
        simp only [read, withReaders, ReaderStack.readByte, hnext]
        rfl
      have hcleared : ({ host with closed := next.name.toList ++ host.closed }.withReaders
          readers).Delivers rest := hbelow.congr rfl rfl
      exact hcleared.of_read_eq hread
  | cons byte bytes =>
      simp only [hbytes] at hgives
      obtain ⟨rfl, hleft⟩ := hgives
      have hread : (host.withReaders (inlet :: readers)).read =
          (.ok byte, host.withReaders (next :: readers)) := by
        simp only [read, withReaders, ReaderStack.readByte, hnext]
        rfl
      have hlater : (host.withReaders (next :: readers)).Delivers (next.supply.bytes ++ rest) :=
        hbelow.withReaders_cons (by rw [hleft]; exact hending)
      rw [hleft] at hlater
      rw [List.cons_append, delivers_cons_iff, hread]
      exact ⟨rfl, hlater⟩
termination_by inlet.supply.bytes.length
decreasing_by simp [hleft, hbytes]

/-- What is put on top of a stack is delivered before what the stack delivers. -/
theorem Delivers.pushReader_stack {host : Host} {readers : List Inlet}
    (hstack : host.input = .stack readers) {rest : List UInt8} (hbelow : host.Delivers rest)
    {inlet : Inlet} (hending : inlet.supply.ending = .cause .endOfFile) :
    (host.pushReader (some inlet)).Delivers (inlet.supply.bytes ++ rest) := by
  have hreaders : (host.withReaders readers).Delivers rest := hbelow.congr hstack.symm rfl
  have hpush : host.pushReader (some inlet) = host.withReaders (inlet :: readers) := by
    simp only [Host.pushReader, hstack]
    rfl
  rw [hpush]
  exact hreaders.withReaders_cons hending

/-- A reader on top of an input that has come to its end delivers its bytes, also if that input was
no stack of readers. -/
theorem Delivers.pushReader {host : Host} (hended : host.Delivers []) {inlet : Inlet}
    (hending : inlet.supply.ending = .cause .endOfFile) :
    (host.pushReader (some inlet)).Delivers inlet.supply.bytes := by
  rw [← List.append_nil inlet.supply.bytes]
  cases hinput : host.input with
  | stack readers => exact hended.pushReader_stack hinput hending
  | console | bytes | reader | buffered | failing | breaking | breakingText =>
      unfold Host.pushReader
      rw [hinput]
      exact host.delivers_withReaders_nil.withReaders_cons hending

/-! ### Output -/

/-- The output channels of a host, and what they report when they refuse a text. -/
def outputs (host : Host) : OutputChannel × OutputChannel × Failure :=
  (host.output, host.error, host.refusal)

/-- Reading does not touch the output. -/
theorem outputs_read (host : Host) : host.read.2.outputs = host.outputs := by
  unfold read
  split <;> rfl

/-- Hosts with the same output take a text in the same way. -/
theorem write_congr {host other : Host} (houtputs : host.outputs = other.outputs)
    (channel : Channel) (text : List UInt8) :
    (host.write channel text).1 = (other.write channel text).1 ∧
      (host.write channel text).2.outputs = (other.write channel text).2.outputs := by
  simp only [outputs, Prod.mk.injEq] at houtputs
  obtain ⟨houtput, herror, hrefusal⟩ := houtputs
  cases channel <;> simp [write, outputs, houtput, herror, hrefusal]

/-- Writing does not touch the input. -/
theorem Delivers.write {host : Host} {bytes : List UInt8} (hdelivers : host.Delivers bytes)
    (channel : Channel) (text : List UInt8) : (host.write channel text).2.Delivers bytes := by
  cases channel <;> exact hdelivers.congr rfl rfl

end Host

end Octet
