import Octet.Proofs.Listing

/-! # Texts that are cut short

A text is written in many pieces, and any of the writes may fail after the writer took a
part of it. The first failure is tracked, and the writer is not asked again. So what the
writer took is the beginning of the text, and there is a failure to report exactly if one
of its writes failed. This holds of everything that is written piece by piece: the
listing of a program, one of its instructions, and the state of a machine.
-/

namespace Octet

variable {σ : Type}

/-- A write that a writer was asked for, and what became of it. -/
structure WriteCall where
  bytes : List UInt8
  result : WriteResult
  deriving DecidableEq, Repr

/-- What a writer took in some writes. -/
def received (calls : List WriteCall) : List UInt8 :=
  calls.flatMap fun call => call.bytes.take call.result.accepted

theorem received_concat (calls : List WriteCall) (call : WriteCall) :
    received (calls ++ [call]) = received calls ++ call.bytes.take call.result.accepted := by
  simp [received]

namespace Writer

/-- The writer that keeps the writes that another one is asked for, in order, beside its state. -/
def logging (writer : Writer σ) : Writer (σ × List WriteCall) := fun bytes (target, calls) =>
  let (result, target) := writer bytes target
  (result, (target, calls ++ [⟨bytes, result⟩]))

/-- A writer that reports a failure when it does not take a write whole. -/
def Reports (writer : Writer σ) : Prop :=
  ∀ bytes target, (writer bytes target).1.failure = none →
    (writer bytes target).1.accepted = bytes.length

/-- A writer that accepts what it is given receives all of it. -/
theorem logging_keeps {writer : Writer σ} (hreports : writer.Reports) (haccepts : writer.Accepts) :
    writer.logging.Keeps fun state => received state.2 := by
  refine ⟨fun bytes state => haccepts bytes state.1, ?_⟩
  intro bytes state
  have hwhole := hreports bytes state.1 (haccepts bytes state.1)
  simp only [logging, received_concat, hwhole, List.take_length]

end Writer

/-! ### Any writer -/

/-- A writer that has been asked for a text has taken it whole, or has taken the beginning of it up to
its first failure, which is tracked. -/
inductive Outlet.Holds (text : List UInt8) : Outlet (σ × List WriteCall) → Prop
  | whole {target : σ} {calls : List WriteCall}
      (htaken : ∀ call ∈ calls, call.result.failure = none) (htext : received calls = text) :
      Holds text (.tracked (target, calls) none)
  | cut {target : σ} {calls : List WriteCall} {last : WriteCall} {reason : Failure}
      (htaken : ∀ call ∈ calls, call.result.failure = none)
      (hlast : last.result.failure = some reason) (htext : received (calls ++ [last]) <+: text) :
      Holds text (.tracked (target, calls ++ [last]) (some (.context "write failed" reason)))

namespace Outlet.Holds

variable {writer : Writer σ} {text : List UInt8} {outlet : Outlet (σ × List WriteCall)}

/-- Each write hands on the next bytes of the text, unless there was a failure before. -/
theorem write (hholds : outlet.Holds text) (hreports : writer.Reports) (bytes : List UInt8) :
    (outlet.write writer.logging bytes).2.Holds (text ++ bytes) := by
  cases hholds with
  | cut htaken hlast htext =>
      exact .cut htaken hlast (htext.trans (List.prefix_append text bytes))
  | @whole target calls htaken htext =>
      have hcall := hreports bytes target
      rcases hwrite : writer bytes target with ⟨⟨accepted, failure⟩, next⟩
      rw [hwrite] at hcall
      simp only [Outlet.write, Writer.logging, hwrite]
      cases failure with
      | none =>
          have hwhole : accepted = bytes.length := hcall rfl
          refine .whole ?_ ?_
          · rw [List.forall_mem_append]
            exact ⟨htaken, by simp⟩
          · rw [received_concat, htext, hwhole, List.take_length]
      | some reason =>
          refine .cut htaken rfl ?_
          rw [received_concat, htext]
          exact List.prefix_append_right_inj text |>.mpr (List.take_prefix _ _)

/-- Any number of pieces is handed on in order, up to the first failure. -/
theorem writeAll (hholds : outlet.Holds text) (hreports : writer.Reports) (pieces : List String) :
    (outlet.writeAll writer.logging pieces).Holds (text ++ pieces.flatMap utf8Bytes) := by
  induction pieces generalizing outlet text with
  | nil => simpa [Outlet.writeAll] using hholds
  | cons piece pieces ih =>
      rw [List.flatMap_cons, ← List.append_assoc]
      exact ih (hholds.write hreports (utf8Bytes piece))

end Outlet.Holds

/-! ### Writers with a limit -/

/-- A destination with room for a number of bytes has taken a text whole, or as much of it as there is
room for. -/
inductive Outlet.Fills (room : Nat) (refusal : Failure) (text : List UInt8) : Outlet Limited → Prop
  | whole {state : Limited} (hroom : state.room = some (room - text.length))
      (hrefusal : state.refusal = refusal) (hfits : text.length ≤ room)
      (htext : state.content = text) : Fills room refusal text (.tracked state none)
  | full {state : Limited} (hover : room < text.length) (htext : state.content = text.take room) :
      Fills room refusal text (.tracked state (some (.context "write failed" refusal)))

theorem Limited.content_cons (room : Option Nat) (refusal : Failure) (bytes : List UInt8)
    (pieces : List (List UInt8)) :
    content ⟨room, refusal, bytes :: pieces⟩ = content ⟨room, refusal, pieces⟩ ++ bytes := by
  simp [content]

namespace Outlet.Fills

variable {room : Nat} {refusal : Failure} {text : List UInt8} {outlet : Outlet Limited}

/-- Each write fills the room that is left, and no more. -/
theorem write (hfills : outlet.Fills room refusal text) (bytes : List UInt8) :
    (outlet.write Limited.write bytes).2.Fills room refusal (text ++ bytes) := by
  cases hfills with
  | full hover htext =>
      refine .full (by rw [List.length_append]; omega) ?_
      rw [htext, List.take_append_of_le_length (Nat.le_of_lt hover)]
  | @whole state hroom hrefusal hfits htext =>
      obtain ⟨left, reason, pieces⟩ := state
      obtain rfl : left = some (room - text.length) := hroom
      obtain rfl : reason = refusal := hrefusal
      by_cases hroom : bytes.length ≤ room - text.length
      · simp only [Outlet.write, Limited.write, if_pos hroom, Option.map_none]
        refine .whole ?_ rfl (by rw [List.length_append]; omega) ?_
        · rw [List.length_append, Nat.sub_sub]
        · rw [Limited.content_cons]
          exact congrArg (· ++ bytes) htext
      · simp only [Outlet.write, Limited.write, if_neg hroom, Option.map_some]
        refine .full (by rw [List.length_append]; omega) ?_
        rw [Limited.content_cons, List.take_append, List.take_of_length_le hfits]
        exact congrArg (· ++ _) htext

/-- Any number of pieces fills the room, and no more. -/
theorem writeAll (hfills : outlet.Fills room refusal text) (pieces : List String) :
    (outlet.writeAll Limited.write pieces).Fills room refusal
      (text ++ pieces.flatMap utf8Bytes) := by
  induction pieces generalizing outlet text with
  | nil => simpa [Outlet.writeAll] using hfills
  | cons piece pieces ih =>
      rw [List.flatMap_cons, ← List.append_assoc]
      exact ih (hfills.write (utf8Bytes piece))

end Outlet.Fills

/-! ### What is written piece by piece -/

/-- Something that writes to outlets. -/
def Printer : Type 1 := (σ : Type) → Writer σ → Outlet σ → Outlet σ

/-- The beginning of a text was written, up to the first write that failed. -/
structure CutShort (text : List UInt8) (calls : List WriteCall) (failure : Option Failure) : Prop where
  front : received calls <+: text
  /-- The write that fails is the last one. -/
  silent : ∀ before call after, calls = before ++ call :: after → call.result.failure ≠ none →
    after = []
  /-- A failure is reported if a write failed, and it is that of the writer. -/
  failure : failure =
    (calls.findSome? fun call => call.result.failure).map (Failure.context "write failed")

/-- An outlet that has not failed, to a writer that has not been asked for anything. -/
def Outlet.Fresh (outlet : Outlet (σ × List WriteCall)) : Prop :=
  outlet.failure = none ∧ outlet.target.2 = []

/-- What is written is a text, of which a writer that fails takes the beginning. -/
structure Prints (print : Printer) (text : List UInt8) : Prop where
  whole : ∀ (σ : Type) (writer : Writer σ), writer.Reports → writer.Accepts →
    ∀ outlet : Outlet (σ × List WriteCall), outlet.Fresh →
      received (print _ writer.logging outlet).target.2 = text ∧
        (print _ writer.logging outlet).failure = none
  cutShort : ∀ (σ : Type) (writer : Writer σ), writer.Reports →
    ∀ outlet : Outlet (σ × List WriteCall), outlet.Fresh →
      CutShort text (print _ writer.logging outlet).target.2 (print _ writer.logging outlet).failure
  /-- A destination with room for a number of bytes takes as many of the text. -/
  limited : ∀ (room : Nat) (refusal : Failure) (outlet : Outlet Limited), outlet.failure = none →
    outlet.target = .new (some room) refusal →
      (print _ Limited.write outlet).target.content = text.take (min room text.length) ∧
        ((print _ Limited.write outlet).failure.isSome ↔ room < text.length)

theorem Outlet.track_of_failure {outlet : Outlet σ} (hfailure : outlet.failure = none) :
    outlet.track = .tracked outlet.target none := by
  cases outlet with
  | bare target => rfl
  | tracked target failure =>
      obtain rfl : failure = none := hfailure
      rfl

/-- What a target has received is the text, or its beginning up to the failure. -/
theorem Outlet.Holds.cutShort {text : List UInt8} {outlet : Outlet (σ × List WriteCall)}
    (hholds : outlet.Holds text) : CutShort text outlet.target.2 outlet.failure := by
  cases hholds with
  | @whole target calls htaken htext =>
      have hnone : calls.findSome? (fun call => call.result.failure) = none :=
        List.findSome?_eq_none_iff.mpr htaken
      refine ⟨htext ▸ List.prefix_refl _, ?_, ?_⟩
      · intro before call after hsplit hfailed
        have hcalls : calls = before ++ call :: after := hsplit
        exact absurd (htaken call (by simp [hcalls])) hfailed
      · simp only [Outlet.target, Outlet.failure, hnone, Option.map_none]
  | @cut target calls last reason htaken hlast htext =>
      have hnone : calls.findSome? (fun call => call.result.failure) = none :=
        List.findSome?_eq_none_iff.mpr htaken
      refine ⟨htext, ?_, ?_⟩
      · intro before call after hsplit hfailed
        rcases after.eq_nil_or_concat' with hend | ⟨front, final, rfl⟩
        · exact hend
        · -- a write before the last one has not failed
          have hcalls : calls ++ [last] = (before ++ call :: front) ++ [final] := by
            rw [List.append_assoc]
            exact hsplit
          have hbefore := (List.append_inj' hcalls rfl).1
          exact absurd (htaken call (by simp [hbefore])) hfailed
      · simp only [Outlet.target, Outlet.failure, List.findSome?_append, hnone, Option.none_or,
          List.findSome?_singleton, hlast, Option.map_some]

/-- Pieces that are written through an outlet which tracks failures. -/
theorem prints_writeAll (pieces : List String) :
    Prints (fun _ writer outlet => outlet.track.writeAll writer pieces)
      (pieces.flatMap utf8Bytes) := by
  refine ⟨?_, ?_, ?_⟩
  · rintro σ writer hreports haccepts outlet ⟨hfailure, hcalls⟩
    have htrack := Outlet.track_of_failure hfailure
    obtain ⟨hnone, htext⟩ := Outlet.writeAll_of_keeps (Writer.logging_keeps hreports haccepts) pieces
      (show outlet.track.failure = none by rw [htrack]; rfl)
    refine ⟨?_, hnone⟩
    rw [htext, htrack, Outlet.target, hcalls]
    rfl
  · rintro σ writer hreports outlet ⟨hfailure, hcalls⟩
    have hstart : outlet.track.Holds [] := by
      rcases htarget : outlet.target with ⟨target, calls⟩
      obtain rfl : calls = [] := by rwa [htarget] at hcalls
      rw [Outlet.track_of_failure hfailure, htarget]
      exact .whole (by simp) rfl
    exact (hstart.writeAll hreports pieces).cutShort
  · intro room refusal outlet hfailure htarget
    have hstart : outlet.track.Fills room refusal [] := by
      rw [Outlet.track_of_failure hfailure, htarget]
      exact .whole rfl rfl (Nat.zero_le _) rfl
    have hfills := hstart.writeAll pieces
    rw [List.nil_append] at hfills
    generalize outlet.track.writeAll Limited.write pieces = after at hfills ⊢
    cases hfills with
    | whole hroom hrefusal hfits htext =>
        refine ⟨?_, iff_of_false (by simp [Outlet.failure]) (Nat.not_lt.mpr hfits)⟩
        rw [Nat.min_eq_right hfits, List.take_length]
        exact htext
    | full hover htext =>
        refine ⟨?_, iff_of_true rfl hover⟩
        rw [Nat.min_eq_left (Nat.le_of_lt hover)]
        exact htext

/-- The state of a machine is written as its pieces, one behind the other, although the instruction
is written by a part of its own, to which the outlet is handed over. -/
theorem Machine.dumpTo_eq_writeAll (writer : Writer σ) (machine : Machine) (outlet : Outlet σ) :
    machine.dumpTo writer outlet = outlet.track.writeAll writer machine.statePieces := by
  let start := (outlet.track.write writer (utf8Bytes machine.positionText)).2
  have hstart : start.track = start := Outlet.track_write (Outlet.track_track outlet) _
  have hblank : (start.write writer (utf8Bytes " ")).2.track =
      (start.write writer (utf8Bytes " ")).2 := Outlet.track_write hstart _
  rw [statePieces, List.append_assoc, List.cons_append, List.nil_append, Outlet.writeAll_cons,
    Outlet.writeAll_append]
  change (machine.instructionTo writer start).writeAll writer machine.contentPieces =
    (start.writeAll writer _).writeAll writer machine.contentPieces
  congr 1
  unfold instructionTo
  split
  next => rfl
  next =>
    rw [Outlet.writeAll_cons]
    simp only [disassembleTo?]
    cases disassembleAt? machine.program.code machine.pc with
    | none => rfl
    | some line =>
        simp only [Option.map_some, Option.getD_some, hblank]

/-- The listing of a program, each of its instructions and the state of a machine are texts of which a
writer that fails takes the beginning. The position after an instruction does not depend on what
becomes of its text. -/
theorem texts_cut_short (cluster : Cluster) (machine : Machine) {pc : Nat}
    (hpc : pc < cluster.size) :
    Prints (fun _ writer outlet => cluster.disassembleTo writer outlet)
        (utf8Bytes (String.join cluster.listing)) ∧
      Prints (fun _ writer outlet => machine.dumpTo writer outlet)
        (utf8Bytes (String.join machine.statePieces)) ∧
      ∃ (next : Nat) (print : Printer), Prints print (utf8Bytes (shownAt cluster.code pc)) ∧
        ∀ (σ : Type) (writer : Writer σ) (outlet : Outlet σ),
          disassembleTo? writer cluster.code pc outlet = some (next, print σ writer outlet) := by
  refine ⟨?_, ?_, ?_⟩
  · simp only [Cluster.disassembleTo_eq_writeAll, utf8Bytes_join]
    exact prints_writeAll cluster.listing
  · simp only [Machine.dumpTo_eq_writeAll, utf8Bytes_join]
    exact prints_writeAll machine.statePieces
  · cases hline : disassembleAt? cluster.code pc with
    | none => exact absurd hpc (Nat.not_lt.mpr (disassembleAt?_eq_none_iff.mp hline))
    | some line =>
        have hshown : utf8Bytes (shownAt cluster.code pc) = line.1.flatMap utf8Bytes := by
          rw [shownAt, utf8Bytes_join, piecesAt, hline]
          rfl
        refine ⟨line.2, fun _ writer outlet => outlet.track.writeAll writer line.1, ?_, ?_⟩
        · rw [hshown]
          exact prints_writeAll line.1
        · intro σ writer outlet
          rw [disassembleTo?, hline]
          rfl

/-- A destination with room for five bytes takes the beginning of an instruction. -/
theorem texts_cut_short_of_add :
    let cluster := Cluster.ofCode #[5, 0, 7]
    let outlet := Outlet.bare (Limited.new (some 5) (.cause (.host "full")))
    0 < cluster.size ∧ ∃ next after,
      disassembleTo? Limited.write cluster.code 0 outlet = some (next, after) ∧
        after.target.content = utf8Bytes "add r" ∧ after.failure.isSome := by
  intro cluster outlet
  have hpc : 0 < cluster.size := by decide
  have htext : utf8Bytes (shownAt cluster.code 0) = utf8Bytes "add r0, 7" := by decide +kernel
  obtain ⟨-, -, next, print, hprints, hruns⟩ :=
    texts_cut_short cluster ⟨cluster, 0, #[0], .new 1, .unset, 0⟩ hpc
  obtain ⟨hcontent, hfailure⟩ := hprints.limited 5 (.cause (.host "full")) outlet rfl rfl
  rw [htext] at hcontent hfailure
  refine ⟨hpc, next, _, hruns _ Limited.write outlet, ?_, hfailure.mpr (by decide +kernel)⟩
  rw [hcontent]
  decide +kernel

end Octet
