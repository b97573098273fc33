import Octet.Failure
import Octet.Text.Utf8

/-! # Writing to destinations that may fail

A writer is a destination for bytes, described by how one write changes its
state. Longer output is made of several writes. An outlet is a writer whose
first failure may be tracked: after it, further writes do not reach the writer
and report that failure again.
-/

namespace Octet

/-- What became of one write. -/
structure WriteResult where
  /-- The number of bytes that the destination took. -/
  accepted : Nat
  /-- Why it did not take all of them. -/
  failure : Option Failure
  deriving DecidableEq, Repr

/-- A destination with states `σ`: the result of one write and the state after it. -/
abbrev Writer (σ : Type) := List UInt8 → σ → WriteResult × σ

/-- The state of a writer, with or without its first failure tracked. -/
inductive Outlet (σ : Type) where
  | bare (target : σ)
  | tracked (target : σ) (failure : Option Failure)
  deriving DecidableEq, Repr

namespace Outlet

variable {σ : Type}

/-- The state of the writer behind an outlet. -/
def target : Outlet σ → σ
  | bare target => target
  | tracked target _ => target

/-- The first failure, if it is tracked and there was one. -/
def failure : Outlet σ → Option Failure
  | bare _ => none
  | tracked _ failure => failure

/-- The same outlet with failures tracked from now on. A tracked outlet stays as it is, so
its first failure is not forgotten. -/
def track : Outlet σ → Outlet σ
  | bare target => tracked target none
  | tracked target failure => tracked target failure

/-- One write through an outlet. -/
def write (writer : Writer σ) (bytes : List UInt8) : Outlet σ → WriteResult × Outlet σ
  | bare target =>
    let (result, target) := writer bytes target
    (result, bare target)
  | tracked target (some failure) => (⟨0, some failure⟩, tracked target (some failure))
  | tracked target none =>
    let (result, target) := writer bytes target
    let failure := result.failure.map (Failure.context "write failed")
    (⟨result.accepted, failure⟩, tracked target failure)

/-- Several writes one after another, whatever becomes of each. -/
def writeAll (writer : Writer σ) (pieces : List String) (outlet : Outlet σ) : Outlet σ :=
  pieces.foldl (fun outlet piece => (outlet.write writer (utf8Bytes piece)).2) outlet

end Outlet

/-- A destination that takes a limited number of bytes. -/
structure Limited where
  /-- How many more bytes it takes, if there is a limit. -/
  room : Option Nat
  /-- What it reports for a write that does not fit. -/
  refusal : Failure
  /-- What it took of each write, the last one first. -/
  received : List (List UInt8)
  deriving DecidableEq, Repr

namespace Limited

/-- A destination that has not been written to. -/
def new (room : Option Nat) (refusal : Failure) : Limited := ⟨room, refusal, []⟩

/-- A write that fits is taken whole; of one that does not, the part that fits is. -/
def write : Writer Limited := fun bytes state =>
  let ⟨room, refusal, received⟩ := state
  match room with
  | none => (⟨bytes.length, none⟩, ⟨none, refusal, bytes :: received⟩)
  | some room =>
    if bytes.length ≤ room then
      (⟨bytes.length, none⟩, ⟨some (room - bytes.length), refusal, bytes :: received⟩)
    else (⟨room, some refusal⟩, ⟨some 0, refusal, bytes.take room :: received⟩)

/-- All bytes taken so far, in order. -/
def content (state : Limited) : List UInt8 := state.received.reverse.flatten

end Limited

end Octet
