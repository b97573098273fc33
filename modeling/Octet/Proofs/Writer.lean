import Mathlib.Tactic.Common
import Octet.Machine.Report

/-! # What a writer is given

Longer output is made of many writes. A writer that takes every write is given the
pieces of a text one behind the other, whether it is written to directly or through an
outlet that tracks failures. What it is given is kept beside it, so that nothing has to
be known about the writer itself. An outlet that tracks failures keeps doing so, whoever
asks for it again, and after the first failure it no longer changes.
-/

namespace Octet

variable {σ τ : Type}

/-- The bytes of joined texts are those of the texts, in order. -/
theorem utf8Bytes_join (pieces : List String) :
    utf8Bytes (String.join pieces) = pieces.flatMap utf8Bytes := by
  rw [utf8Bytes, String.toList_join, List.flatMap_assoc]
  rfl

namespace Writer

/-- A writer that takes every write. -/
def Accepts (writer : Writer σ) : Prop :=
  ∀ bytes target, (writer bytes target).1.failure = none

/-- The writer that keeps what another one is given, in order, beside its state. -/
def noting (writer : Writer σ) : Writer (σ × List UInt8) := fun bytes (target, given) =>
  let (result, target) := writer bytes target
  (result, (target, given ++ bytes))

/-- Every write is taken and added to the text that can be seen in the state. -/
structure Keeps (writer : Writer σ) (text : σ → List UInt8) : Prop where
  accepts : writer.Accepts
  append : ∀ bytes target, text (writer bytes target).2 = text target ++ bytes

theorem noting_keeps {writer : Writer σ} (haccepts : writer.Accepts) :
    writer.noting.Keeps Prod.snd :=
  ⟨fun bytes target => haccepts bytes target.1, fun _ _ => rfl⟩

end Writer

namespace Outlet

/-! ### Outlets that track failures -/

section Tracking

variable {writer : Writer σ} {outlet : Outlet σ}

theorem writeAll_cons (piece : String) (pieces : List String) (outlet : Outlet σ) :
    outlet.writeAll writer (piece :: pieces) =
      (outlet.write writer (utf8Bytes piece)).2.writeAll writer pieces :=
  rfl

/-- Asking a second time for failures to be tracked changes nothing. -/
theorem track_track (outlet : Outlet σ) : outlet.track.track = outlet.track := by
  cases outlet <;> rfl

/-- Writing keeps an outlet tracked. -/
theorem track_write (htracked : outlet.track = outlet) (bytes : List UInt8) :
    (outlet.write writer bytes).2.track = (outlet.write writer bytes).2 := by
  cases outlet with
  | bare target => cases htracked
  | tracked target failure => cases failure <;> rfl

/-- An outlet that tracks failures does so after any number of writes. -/
theorem track_writeAll (htracked : outlet.track = outlet) (pieces : List String) :
    (outlet.writeAll writer pieces).track = outlet.writeAll writer pieces := by
  induction pieces generalizing outlet with
  | nil => exact htracked
  | cons piece pieces ih => exact ih (track_write htracked (utf8Bytes piece))

/-- Nothing more is written after a failure. -/
theorem write_of_failed (hfailed : outlet.failure.isSome) (bytes : List UInt8) :
    (outlet.write writer bytes).2 = outlet := by
  cases outlet with
  | bare target => cases hfailed
  | tracked target failure =>
      cases failure with
      | none => cases hfailed
      | some reason => rfl

/-- After a failure nothing changes any more, whatever is written. -/
theorem writeAll_of_failed (hfailed : outlet.failure.isSome) (pieces : List String) :
    outlet.writeAll writer pieces = outlet := by
  induction pieces with
  | nil => rfl
  | cons piece pieces ih =>
      rw [writeAll_cons, write_of_failed hfailed]
      exact ih

/-- Pieces can be written in two parts. -/
theorem writeAll_append (front back : List String) (outlet : Outlet σ) :
    outlet.writeAll writer (front ++ back) = (outlet.writeAll writer front).writeAll writer back :=
  List.foldl_append

end Tracking

/-! ### Writers that take every write -/

/-- A write is added to the text, and no failure shows. -/
theorem write_of_keeps {writer : Writer σ} {text : σ → List UInt8} (hkeeps : writer.Keeps text)
    {outlet : Outlet σ} (hfailure : outlet.failure = none) (bytes : List UInt8) :
    (outlet.write writer bytes).2.failure = none ∧
      text (outlet.write writer bytes).2.target = text outlet.target ++ bytes := by
  cases outlet with
  | bare target => exact ⟨rfl, hkeeps.append bytes target⟩
  | tracked target failure =>
      obtain rfl : failure = none := hfailure
      refine ⟨?_, hkeeps.append bytes target⟩
      simp only [write, Outlet.failure, hkeeps.accepts bytes target, Option.map_none]

/-- The pieces of a text are given to the writer one behind the other. -/
theorem writeAll_of_keeps {writer : Writer σ} {text : σ → List UInt8} (hkeeps : writer.Keeps text)
    (pieces : List String) {outlet : Outlet σ} (hfailure : outlet.failure = none) :
    (outlet.writeAll writer pieces).failure = none ∧
      text (outlet.writeAll writer pieces).target =
        text outlet.target ++ pieces.flatMap utf8Bytes := by
  induction pieces generalizing outlet with
  | nil => exact ⟨hfailure, by simp [writeAll]⟩
  | cons piece pieces ih =>
      obtain ⟨hnone, htext⟩ := write_of_keeps hkeeps hfailure (utf8Bytes piece)
      obtain ⟨hrest, hall⟩ := ih hnone
      refine ⟨hrest, ?_⟩
      rw [List.flatMap_cons, ← List.append_assoc, ← htext]
      exact hall

/-- A writer that is written to directly is given the pieces, too. -/
theorem writeAll_bare_of_keeps {writer : Writer σ} {text : σ → List UInt8}
    (hkeeps : writer.Keeps text) (pieces : List String) (target : σ) :
    ((bare target).track.writeAll writer pieces).failure = none ∧
      text ((bare target).track.writeAll writer pieces).target =
        text target ++ pieces.flatMap utf8Bytes :=
  writeAll_of_keeps hkeeps pieces rfl

end Outlet

end Octet
