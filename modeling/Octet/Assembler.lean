import Octet.Machine.Step
import Octet.Source.Emission

/-! # The assembler

An assembler turns source texts into clusters for a machine with a given number of
registers. It can be used again and again: what is left of one program is
discarded before the next. What it has to say goes to the two channels, one text
at a time: each diagnostic to the error channel, and on request a summary of
each program to the output channel.
-/

namespace Octet

/-- The largest number of registers that a machine can have. -/
def maxRegisters : Nat := 256

/-- The number of registers of a machine that is not told otherwise. -/
def defaultRegisters : Nat := 4

/-- An assembler between two programs. -/
structure Assembler where
  /-- The number of registers that programs may use. -/
  registers : Nat
  /-- Whether a summary of each program is given. -/
  verbose : Bool
  builder : Builder
  labels : LabelTable

/-- A text sent to a channel. -/
structure Message where
  channel : Channel
  text : String
  deriving DecidableEq, Repr

/-- What became of a source. -/
structure Assembled where
  /-- The program, or what is wrong with the source. -/
  result : Except (List Diagnostic) Cluster
  /-- The texts sent to the channels, in order. -/
  messages : List Message
  /-- The assembler afterwards. -/
  assembler : Assembler

namespace Assembler

/-- An assembler for a machine with `registers` registers, to which further settings are applied in
order. -/
def new (registers : Int) (settings : List (Assembler → Except Failure Assembler)) :
    Except Failure Assembler :=
  if registers < 1 ∨ (maxRegisters : Int) < registers then
    .error (.cause (.registerCount registers))
  else
    settings.foldlM (fun assembler setting => setting assembler)
      ⟨registers.toNat, false, .empty, .empty⟩

/-- Discards what is left of a program. -/
def clean (assembler : Assembler) : Assembler :=
  { assembler with builder := assembler.builder.reset, labels := .empty }

/-- The message that sums up a program. -/
def summary (name : String) (cluster : Cluster) : Message :=
  ⟨.output, name ++ ": " ++ toString cluster.count ++ " instructions, "
    ++ toString cluster.size ++ " bytes\n"⟩

/-- Assembles a source called `name`. -/
def assemble (assembler : Assembler) (name : String) (source : Source) : Assembled :=
  let ⟨registers, verbose, builder, labels⟩ := assembler
  let parsed := source.parse
  let ⟨builder, labels, notices, _⟩ :=
    if parsed.notices.isEmpty then emitStatements registers parsed.statements builder labels
    else ⟨builder, labels, parsed.notices.reverse, false⟩
  let diagnostics := notices.reverse.map fun notice =>
    ({ file := name, place := notice.place, problem := notice.problem } : Diagnostic)
  if diagnostics.isEmpty then
    let (cluster, builder) := builder.freeze
    { result := .ok cluster
      messages := if verbose then [summary name cluster] else []
      assembler := clean ⟨registers, verbose, builder, labels⟩ }
  else
    { result := .error diagnostics
      messages := diagnostics.map fun diagnostic => ⟨.error, diagnostic.text ++ "\n"⟩
      assembler := clean ⟨registers, verbose, builder, labels⟩ }

end Assembler

variable {σ : Type}

/-- Sends texts to the channels of a host, in order. It does not matter whether the host takes them,
unless it breaks off. -/
def Device.sendAll (device : Device σ) : List Message → σ → Except Interruption Unit × σ
  | [], host => (.ok (), host)
  | message :: rest, host =>
    match device.write message.channel (utf8Bytes message.text) host with
    | (.ok _, host) | (.refused _, host) => device.sendAll rest host
    | (.broken failure, host) => (.error (.broken failure), host)
    | (.brokenText text, host) => (.error (.brokenText text), host)

/-- What became of a source whose assembler speaks to a host. -/
structure AssembledOn (σ : Type) where
  /-- The program, or what is wrong with the source; nothing if the host broke off. -/
  result : Except Interruption (Except (List Diagnostic) Cluster)
  /-- The assembler afterwards. -/
  assembler : Assembler
  host : σ

/-- Assembles a source called `name`, and sends what there is to say to a host. -/
def Assembler.assembleOn (assembler : Assembler) (device : Device σ) (name : String)
    (source : Source) (host : σ) : AssembledOn σ :=
  let assembled := assembler.assemble name source
  let (sent, host) := device.sendAll assembled.messages host
  ⟨sent.map fun _ => assembled.result, assembled.assembler, host⟩

/-- Assembles a source for a machine with the usual number of registers. -/
def assembleSource (name : String) (source : Source) : Except (List Diagnostic) Cluster :=
  (Assembler.assemble ⟨defaultRegisters, false, .empty, .empty⟩ name source).result

/-- Several diagnostics as one text, one to a line. -/
def diagnosticsText (diagnostics : List Diagnostic) : String :=
  String.intercalate "\n" (diagnostics.map Diagnostic.text)

end Octet
