import Octet.Proofs.Host.Input

/-! # The law of the stack of readers

Once a reader has been put on it, the input of a host is a pile of supplies: of each
reader, the bytes that it has left, its end and the name under which it is closed.
Reading takes one byte from the topmost supply that is not spent; what is spent above
it is closed and goes. A supply that ends in any other way than the plain one is never
spent. The law is stated for one call and then carried along any calls, also those
that take the input from elsewhere.
-/

namespace Octet

/-! ### Piles of supplies -/

/-- There are no bytes left, and the end is the plain one. -/
def Supply.Spent (supply : Supply) : Prop :=
  supply.bytes = [] ∧ supply.ending = .cause .endOfFile

instance (supply : Supply) : Decidable supply.Spent := inferInstanceAs (Decidable (_ ∧ _))

/-- The top supply comes first. -/
abbrev Pile := List Supply

namespace Pile

/-- The names under which the supplies of a pile are closed, those of the upper ones first. -/
def names (pile : Pile) : List String := pile.filterMap Supply.name

theorem names_append (upper lower : Pile) : names (upper ++ lower) = names upper ++ names lower :=
  List.filterMap_append

/-- Reading a pile: what is answered, the names of the supplies that are closed, in order, and what
is left of the pile. -/
inductive Reads : Pile → Reply UInt8 → List String → Pile → Prop
  /-- The topmost supply that is not spent gives its next byte. -/
  | byte {spent below : Pile} {top : Supply} {byte : UInt8} {rest : List UInt8}
      (hspent : ∀ supply ∈ spent, supply.Spent) (hbytes : top.bytes = byte :: rest) :
      Reads (spent ++ top :: below) (.ok byte) (names spent)
        ({ top with bytes := rest } :: below)
  /-- It has come to an end that is not the plain one, and stays. -/
  | ended {spent below : Pile} {top : Supply} (hspent : ∀ supply ∈ spent, supply.Spent)
      (hbytes : top.bytes = []) (hending : top.ending ≠ .cause .endOfFile) :
      Reads (spent ++ top :: below) (.refused top.ending) (names spent) (top :: below)
  /-- There is none. -/
  | nothing {spent : Pile} (hspent : ∀ supply ∈ spent, supply.Spent) :
      Reads spent (.refused (.cause .endOfFile)) (names spent) []

/-- What a pile answers whose top supply is not spent, and what is left of it. -/
def answer : Pile → Reply UInt8 × Pile
  | [] => (.refused (.cause .endOfFile), [])
  | top :: below =>
    match top.bytes with
    | [] => (.refused top.ending, top :: below)
    | byte :: rest => (.ok byte, { top with bytes := rest } :: below)

namespace Reads

variable {pile left : Pile} {reply : Reply UInt8} {closings : List String}

/-- A spent supply on top is closed first and does not bear on what is answered. -/
theorem cons_spent {supply : Supply} (hsupply : supply.Spent)
    (hreads : Reads pile reply closings left) :
    Reads (supply :: pile) reply (supply.name.toList ++ closings) left := by
  have hnames (spent : Pile) :
      supply.name.toList ++ names spent = names (supply :: spent) := by
    cases hname : supply.name <;> simp [names, hname]
  cases hreads with
  | byte hspent hbytes =>
      rw [hnames]
      exact .byte (List.forall_mem_cons.mpr ⟨hsupply, hspent⟩) hbytes
  | ended hspent hbytes hending =>
      rw [hnames]
      exact .ended (List.forall_mem_cons.mpr ⟨hsupply, hspent⟩) hbytes hending
  | nothing hspent =>
      rw [hnames]
      exact .nothing (List.forall_mem_cons.mpr ⟨hsupply, hspent⟩)

/-- What is closed is what is spent on top, and the answer is that of the rest. -/
theorem eq_answer (hreads : pile.Reads reply closings left) :
    closings = names (pile.takeWhile (·.Spent)) ∧
      (reply, left) = answer (pile.dropWhile (·.Spent)) := by
  have htake {spent : Pile} (hspent : ∀ supply ∈ spent, supply.Spent) (rest : Pile) :
      (spent ++ rest).takeWhile (·.Spent) = spent ++ rest.takeWhile (·.Spent) ∧
        (spent ++ rest).dropWhile (·.Spent) = rest.dropWhile (·.Spent) := by
    constructor
    · exact List.takeWhile_append_of_pos (by simpa using hspent)
    · exact List.dropWhile_append_of_pos (by simpa using hspent)
  cases hreads with
  | @byte spent below top byte rest hspent hbytes =>
      obtain ⟨hbefore, hafter⟩ := htake hspent (top :: below)
      have htop : ¬ top.Spent := fun hnone => by simp [hnone.1] at hbytes
      simp [hbefore, hafter, htop, answer, hbytes]
  | @ended spent below top hspent hbytes hending =>
      obtain ⟨hbefore, hafter⟩ := htake hspent (top :: below)
      have htop : ¬ top.Spent := fun hplain => hending hplain.2
      simp [hbefore, hafter, htop, answer, hbytes]
  | nothing hspent =>
      obtain ⟨hbefore, hafter⟩ := htake hspent []
      simp only [List.append_nil] at hbefore hafter
      simp [hbefore, hafter, answer]

/-- A pile can be read in one way only. -/
theorem unique {others : List String} {other : Reply UInt8} {remains : Pile}
    (hreads : pile.Reads reply closings left) (hagain : pile.Reads other others remains) :
    other = reply ∧ others = closings ∧ remains = left := by
  obtain ⟨hclosings, hanswer⟩ := hreads.eq_answer
  obtain ⟨hothers, hother⟩ := hagain.eq_answer
  obtain ⟨hreply, hleft⟩ := Prod.mk.inj (hother.trans hanswer.symm)
  exact ⟨hreply, hothers.trans hclosings.symm, hleft⟩

/-- The plain end is answered exactly when nothing is left of the pile. -/
theorem refused_endOfFile_iff (hreads : Reads pile reply closings left) :
    reply = .refused (.cause .endOfFile) ↔ left = [] := by
  cases hreads with
  | byte => simp
  | ended _ _ hending => simp [hending]
  | nothing => simp

/-- What is closed is what goes. -/
theorem names_eq (hreads : Reads pile reply closings left) :
    names pile = closings ++ names left := by
  cases hreads with
  | byte => simp [names, List.filterMap_cons]
  | ended => simp [names]
  | nothing => simp [names]

end Reads

end Pile

def pileOf (readers : List Inlet) : Pile := readers.map Inlet.supply

/-- A stack of readers is read as the pile that it is. -/
theorem ReaderStack.exists_reads_readByte (closed : List String) (readers : List Inlet) :
    ∃ closings,
      Pile.Reads (pileOf readers) (Host.replyOf (readByte closed readers).1) closings
        (pileOf (readByte closed readers).2.readers) ∧
      (readByte closed readers).2.closed = closings.reverse ++ closed := by
  induction readers generalizing closed with
  | nil => exact ⟨[], .nothing (List.forall_mem_nil _), rfl⟩
  | cons top below ih =>
      have hgives := top.gives_readByte
      rcases hread : top.readByte with ⟨result, next⟩
      rw [hread] at hgives
      unfold Supply.Gives at hgives
      cases hbytes : top.supply.bytes with
      | cons byte rest =>
          simp only [hbytes] at hgives
          obtain ⟨rfl, hleft⟩ := hgives
          have hreads : Pile.Reads ([] ++ top.supply :: pileOf below) (.ok byte) []
              (next.supply :: pileOf below) := by
            rw [hleft]
            exact .byte (List.forall_mem_nil _) hbytes
          simp only [readByte, hread]
          exact ⟨[], hreads, rfl⟩
      | nil =>
          simp only [hbytes] at hgives
          obtain ⟨rfl, hname, hstays⟩ := hgives
          rw [top.name_supply, next.name_supply] at hname
          -- at the plain end the loop goes on with the readers below
          by_cases hending : top.supply.ending = .cause .endOfFile
          · have hnext : readByte closed (top :: below) =
                readByte (top.name.toList ++ closed) below := by
              simp [readByte, hread, hending, hname, Failure.isEndOfFile]
            obtain ⟨closings, hreads, hclosed⟩ := ih (top.name.toList ++ closed)
            have hspent := hreads.cons_spent ⟨hbytes, hending⟩
            rw [top.name_supply] at hspent
            rw [hnext]
            refine ⟨top.name.toList ++ closings, hspent, ?_⟩
            rw [hclosed]
            cases top.name <;> simp
          · have hnext : readByte closed (top :: below) =
                (.error top.supply.ending, ⟨next :: below, closed⟩) := by
              simp [readByte, hread, hending, Failure.isEndOfFile]
            have hreads : Pile.Reads ([] ++ top.supply :: pileOf below)
                (.refused top.supply.ending) [] (next.supply :: pileOf below) := by
              rw [hstays hending]
              exact .ended (List.forall_mem_nil _) hbytes hending
            rw [hnext]
            exact ⟨[], hreads, rfl⟩

/-! ### Calls -/

/-- The pile of an input that is a stack of readers. -/
def InputSource.pile? : InputSource → Option Pile
  | .stack readers => some (pileOf readers)
  | _ => none

/-- A call on the input of a host. -/
inductive InputCall where
  /-- Puts a reader on top, if one is given. -/
  | push (reader : Option Inlet)
  | read
  /-- Takes the input from elsewhere than a stack of readers. -/
  | redirect (source : InputSource) (helsewhere : source.pile? = none)

namespace InputCall

def leavesStack : InputCall → Bool
  | push _ | read => false
  | redirect _ _ => true

/-- The name under which the reader is closed that a call puts on top. -/
def pushedNames : InputCall → List String
  | push reader => (pileOf reader.toList).names
  | read | redirect _ _ => []

end InputCall

/-- What the law speaks of: the pile, unless the input is taken from elsewhere, and the names of the
readers closed so far, the last one first. -/
structure InputState where
  pile : Option Pile
  closed : List String

/-- A call as the law has it: the state before it, what it answers, and the state after it. Nothing
is said of what is read elsewhere, except that it closes no reader. -/
inductive InputState.Calls : InputState → InputCall → Option (Reply UInt8) → InputState → Prop
  | push (pile : Option Pile) (closed : List String) (reader : Option Inlet) :
      Calls ⟨pile, closed⟩ (.push reader) none
        ⟨some (pileOf reader.toList ++ pile.getD []), closed⟩
  | read {pile left : Pile} {reply : Reply UInt8} {closings : List String}
      (hreads : pile.Reads reply closings left) (closed : List String) :
      Calls ⟨some pile, closed⟩ .read (some reply) ⟨some left, closings.reverse ++ closed⟩
  | elsewhere (reply : Reply UInt8) (closed : List String) :
      Calls ⟨none, closed⟩ .read (some reply) ⟨none, closed⟩
  | redirect (pile : Option Pile) (closed : List String) {source : InputSource}
      (helsewhere : source.pile? = none) :
      Calls ⟨pile, closed⟩ (.redirect source helsewhere) none ⟨none, closed⟩

/-- Calls one after the other, each with what it answers. -/
inductive InputState.Transcribes :
    InputState → List (InputCall × Option (Reply UInt8)) → InputState → Prop
  | nil (state : InputState) : Transcribes state [] state
  | cons {state next last : InputState} {call : InputCall} {reply : Option (Reply UInt8)}
      {transcript : List (InputCall × Option (Reply UInt8))} (hcall : state.Calls call reply next)
      (hrest : Transcribes next transcript last) :
      Transcribes state ((call, reply) :: transcript) last

/-- As long as the stack is not left, the readers that were on it or are put on it are still there,
or they have been closed, each of them once. -/
theorem InputState.Transcribes.closed_perm {state last : InputState}
    {transcript : List (InputCall × Option (Reply UInt8))}
    (htranscribes : state.Transcribes transcript last)
    (hstays : ∀ call ∈ transcript.map Prod.fst, call.leavesStack = false) :
    ∃ closings, last.closed = closings ++ state.closed ∧
      (closings ++ (last.pile.getD []).names).Perm
        ((transcript.map Prod.fst).flatMap InputCall.pushedNames
          ++ (state.pile.getD []).names) := by
  induction htranscribes with
  | nil state => exact ⟨[], rfl, .refl _⟩
  | cons hcall hrest ih =>
      obtain ⟨hfirst, hstays⟩ := List.forall_mem_cons.mp hstays
      obtain ⟨closings, hclosed, hperm⟩ := ih hstays
      cases hcall with
      | push pile closed reader =>
          refine ⟨closings, hclosed, hperm.trans ?_⟩
          simp only [Option.getD_some, Pile.names_append, List.map_cons, List.flatMap_cons,
            InputCall.pushedNames, ← List.append_assoc]
          exact List.perm_append_comm.append_right _
      | @read pile left reply closedNow hreads closed =>
          refine ⟨closings ++ closedNow.reverse, by simpa using hclosed, ?_⟩
          rw [Option.getD_some, hreads.names_eq]
          -- what this call closes comes before what the later ones close, so the two sides are
          -- compared name by name
          apply List.perm_iff_count.mpr
          intro name
          have hcount := hperm.count_eq name
          simp only [Option.getD_some, List.count_append, List.count_reverse, List.map_cons,
            List.flatMap_cons, InputCall.pushedNames, List.count_nil] at hcount ⊢
          omega
      | elsewhere reply closed => exact ⟨closings, hclosed, hperm⟩
      | redirect => cases hfirst

namespace Host

def perform (host : Host) : InputCall → Option (Reply UInt8) × Host
  | .push reader => (none, host.pushReader reader)
  | .read => (some host.read.1, host.read.2)
  | .redirect source _ => (none, host.redirectInput source)

def afterCalls (host : Host) (calls : List InputCall) : Host :=
  calls.foldl (fun host call => (host.perform call).2) host

def transcript : Host → List InputCall → List (InputCall × Option (Reply UInt8))
  | _, [] => []
  | host, call :: calls => (call, (host.perform call).1) :: (host.perform call).2.transcript calls

def inputState (host : Host) : InputState := ⟨host.input.pile?, host.closed⟩

/-- A reader is put on top of the pile; an input that was no pile is left for a new one. -/
theorem pile?_pushReader (host : Host) (reader : Option Inlet) :
    (host.pushReader reader).input.pile? =
      some (pileOf reader.toList ++ host.input.pile?.getD []) := by
  unfold pushReader
  cases host.input <;> simp [InputSource.pile?, pileOf]

/-- Reading follows the law. -/
theorem calls_read (host : Host) :
    host.inputState.Calls .read (some host.read.1) host.read.2.inputState := by
  unfold inputState read
  cases hinput : host.input with
  | stack readers =>
      obtain ⟨closings, hreads, hclosed⟩ :=
        ReaderStack.exists_reads_readByte host.closed readers
      simp only [InputSource.pile?, hclosed]
      exact .read hreads host.closed
  | console | bytes | reader | buffered | failing | breaking | breakingText =>
      simp only [InputSource.pile?, hinput]
      exact .elsewhere _ _

/-- Reading a stack of readers is reading its pile. -/
theorem exists_reads_read (host : Host) {pile : Pile} (hpile : host.input.pile? = some pile) :
    ∃ reply closings left, pile.Reads reply closings left ∧ host.read.1 = reply ∧
      host.read.2.inputState = ⟨some left, closings.reverse ++ host.closed⟩ := by
  have hcalls := host.calls_read
  rw [inputState, hpile] at hcalls
  generalize hstate : host.read.2.inputState = state at hcalls ⊢
  generalize hreply : host.read.1 = reply at hcalls ⊢
  cases hcalls with
  | read hreads closed => exact ⟨_, _, _, hreads, rfl, rfl⟩

/-- Every call follows the law. -/
theorem calls_perform (host : Host) (call : InputCall) :
    host.inputState.Calls call (host.perform call).1 (host.perform call).2.inputState := by
  cases call with
  | push reader =>
      simp only [perform, inputState, pile?_pushReader]
      exact .push _ _ reader
  | read => exact host.calls_read
  | redirect source helsewhere =>
      simp only [perform, inputState, redirectInput, helsewhere]
      exact .redirect _ _ helsewhere

/-- Calls one after the other follow the law, each from where the one before it ended. -/
theorem transcribes_transcript (host : Host) (calls : List InputCall) :
    host.inputState.Transcribes (host.transcript calls) (host.afterCalls calls).inputState := by
  induction calls generalizing host with
  | nil => exact .nil _
  | cons call calls ih => exact .cons (host.calls_perform call) (ih _)

theorem map_fst_transcript (host : Host) (calls : List InputCall) :
    (host.transcript calls).map Prod.fst = calls := by
  induction calls generalizing host with
  | nil => rfl
  | cons call calls ih => exact congrArg (call :: ·) (ih _)

/-- Whatever calls are made on the input of a host, each of them follows the law, from the pile that
is left by those before it; a host whose input comes from elsewhere has no pile until the first
reader is put on it. At any time reading answers what the law says for the pile, leaves what it says
and closes what it says; the plain end is answered exactly when no reader is left. As long as the
stack is not left, every reader that was put on it is still there or has been closed once. -/
theorem input_lawful (host : Host) (calls : List InputCall) :
    let reached := host.afterCalls calls
    host.inputState.Transcribes (host.transcript calls) reached.inputState ∧
    (∀ pile, reached.input.pile? = some pile →
      (∀ reply closings left, pile.Reads reply closings left →
        reached.read.1 = reply ∧
          reached.read.2.inputState = ⟨some left, closings.reverse ++ reached.closed⟩) ∧
      (reached.read.1 = .refused (.cause .endOfFile) ↔
        reached.read.2.input.pile? = some [])) ∧
    (∀ stretch : List InputCall, (∀ call ∈ stretch, call.leavesStack = false) →
      let final := reached.afterCalls stretch
      ∃ closings, final.closed = closings ++ reached.closed ∧
        (closings ++ (final.input.pile?.getD []).names).Perm
          (stretch.flatMap InputCall.pushedNames ++ (reached.input.pile?.getD []).names)) := by
  intro reached
  refine ⟨host.transcribes_transcript calls, ?_, ?_⟩
  · intro pile hpile
    obtain ⟨reply, closings, left, hreads, hreply, hstate⟩ := reached.exists_reads_read hpile
    refine ⟨?_, ?_⟩
    · intro other others remains hother
      obtain ⟨rfl, rfl, rfl⟩ := hreads.unique hother
      exact ⟨hreply, hstate⟩
    · have hleft : reached.read.2.input.pile? = some left := congrArg InputState.pile hstate
      rw [hreply, hreads.refused_endOfFile_iff, hleft, Option.some.injEq]
  · intro stretch hstays final
    have htranscript := reached.map_fst_transcript stretch
    have hperm := (reached.transcribes_transcript stretch).closed_perm (by rwa [htranscript])
    rw [htranscript] at hperm
    exact hperm

/-- A reader that is polled and delivers its last byte with its end, below one that is asked and has
delivered all of its bytes; then one more on top of them, which ends in another way. -/
theorem input_lawful_of_three :
    let channel : OutputChannel := ⟨.console, [], []⟩
    let host : Host := ⟨.console, [7], channel, channel, .cause .endOfFile, []⟩
    let low := Reader.polling [3] (.cause .endOfFile) 2 true (some "low")
    let middle := Reader.ofBytes [1] (some "middle")
    let top := Reader.polling [] (.cause (.host "busy")) 1 false (some "top")
    let calls : List InputCall := [.push (some low), .push none, .push (some middle), .read]
    let reached := host.afterCalls calls
    (host.transcript calls).map Prod.snd = [none, none, none, some (.ok 1)] ∧
      (reached.read.1 = .ok 3 ∧ reached.read.2.closed = ["middle"]) ∧
      (host.afterCalls (calls ++ [.push (some top)])).read.1 = .refused (.cause (.host "busy")) ∧
      ∃ closings, (reached.afterCalls [.read, .read]).closed = closings ∧
        closings.Perm ["middle", "low"] := by
  intro channel host low middle top calls reached
  let spent : Pile := [⟨[], .cause .endOfFile, some "middle"⟩]
  have hspent : ∀ supply ∈ spent, supply.Spent := by decide +kernel
  obtain ⟨-, hreading, hclosing⟩ := host.input_lawful calls
  obtain ⟨hreply, hstate⟩ := (hreading (spent ++ [low.supply]) (by decide +kernel)).1 _ _ _
    (.byte hspent rfl)
  obtain ⟨-, hreadingTop, -⟩ := host.input_lawful (calls ++ [.push (some top)])
  obtain ⟨hrefused, -⟩ := (hreadingTop ([] ++ top.supply :: (spent ++ [low.supply]))
    (by decide +kernel)).1 _ _ _ (.ended (List.forall_mem_nil _) rfl (by decide))
  obtain ⟨closings, hclosed, hperm⟩ := hclosing [.read, .read] (by decide)
  have hnone : reached.closed = [] := by decide +kernel
  have hleft : ((reached.afterCalls [.read, .read]).input.pile?.getD []).names = [] := by
    decide +kernel
  have hwere : (reached.input.pile?.getD []).names = ["middle", "low"] := by decide +kernel
  rw [hleft, hwere, List.append_nil] at hperm
  rw [hnone, List.append_nil] at hclosed
  exact ⟨by decide +kernel, ⟨hreply, congrArg InputState.closed hstate⟩, hrefused, closings, hclosed,
    hperm⟩

end Host

end Octet
