import Octet.Proofs.Reporting

/-! # Using an assembler again

An assembler does not forget everything between two sources: it keeps the room that
its builder has set aside. What is left of the programs before shows nowhere else.
The room decides neither about what is objected to nor about the bytes, so the next
source fares as it would with a new assembler, whatever became of the sources before
it.
-/

namespace Octet

/-! ### Builders that differ in their room -/

namespace Builder

variable {builder other : Builder}

/-- The capacity does not bear on what can be appended. -/
theorem emit_alike (hcode : other.code = builder.code) (code : UInt8) (operands : List UInt8) :
    ∃ result next room, builder.emit code operands = (result, next) ∧
      other.emit code operands = (result, ⟨next.code, room⟩) := by
  obtain ⟨bytes, capacity⟩ := builder
  obtain ⟨others, room⟩ := other
  obtain rfl : others = bytes := hcode
  unfold emit
  split
  next => exact ⟨_, _, _, rfl, rfl⟩
  next =>
    split
    next => exact ⟨_, _, _, rfl, rfl⟩
    next =>
      simp only
      split
      next => exact ⟨_, _, _, rfl, rfl⟩
      next => exact ⟨_, _, _, rfl, rfl⟩

/-- The capacity does not bear on what can be overwritten. -/
theorem patch_alike (hcode : other.code = builder.code) (position address : Int64) :
    ∃ result next room, builder.patch position address = (result, next) ∧
      other.patch position address = (result, ⟨next.code, room⟩) := by
  obtain ⟨bytes, capacity⟩ := builder
  obtain ⟨others, room⟩ := other
  obtain rfl : others = bytes := hcode
  unfold patch
  split
  next => exact ⟨_, _, _, rfl, rfl⟩
  next =>
    split
    next => exact ⟨_, _, _, rfl, rfl⟩
    next =>
      simp only
      split
      next => exact ⟨_, _, _, rfl, rfl⟩
      next => exact ⟨_, _, _, rfl, rfl⟩

end Builder

/-! ### Emissions that differ in the room of their builders -/

namespace Emission

/-- The capacity does not bear on how a branch target is filled in. -/
theorem resolve_alike {builder other : Builder} (hcode : other.code = builder.code)
    (sites : LabelTable) (notices : List Notice) (use : LabelUse) :
    ∃ next room found, resolve sites (builder, notices) use = (next, found) ∧
      resolve sites (other, notices) use = (⟨next.code, room⟩, found) := by
  simp only [resolve]
  cases hsite : sites.site? use.name with
  | none =>
      refine ⟨builder, other.capacity, _, rfl, ?_⟩
      rw [← hcode]
  | some site =>
      obtain ⟨result, next, room, hpatch, hother⟩ := Builder.patch_alike hcode
        (Int64.ofNat use.position) (Int64.ofNat site.address)
      simp only [hpatch, hother]
      cases result with
      | done => exact ⟨next, room, _, rfl, rfl⟩
      | refused failure => exact ⟨next, room, _, rfl, rfl⟩
      | escaped => exact ⟨next, room, _, rfl, rfl⟩

/-- The capacity does not bear on how all branch targets are filled in. -/
theorem foldl_resolve_alike {builder other : Builder} (hcode : other.code = builder.code)
    (sites : LabelTable) (notices : List Notice) (uses : List LabelUse) :
    ∃ next room found, uses.foldl (resolve sites) (builder, notices) = (next, found) ∧
      uses.foldl (resolve sites) (other, notices) = (⟨next.code, room⟩, found) := by
  induction uses generalizing builder other notices with
  | nil =>
      refine ⟨builder, other.capacity, notices, rfl, ?_⟩
      rw [← hcode]
      rfl
  | cons use uses ih =>
      obtain ⟨next, room, found, hnext, hother⟩ := resolve_alike hcode sites notices use
      rw [List.foldl_cons, List.foldl_cons, hnext, hother]
      have hrest : (⟨next.code, room⟩ : Builder).code = next.code := rfl
      exact ih hrest found

/-- The emissions differ in nothing but the room that their builders have set aside. -/
structure Alike (emission other : Emission) : Prop where
  code : other.builder.code = emission.builder.code
  labels : other.labels = emission.labels
  notices : other.notices = emission.notices
  full : other.full = emission.full

namespace Alike

variable {emission other : Emission}

theorem addLabel (halike : emission.Alike other) (place : Place) (label : Option String) :
    (emission.addLabel place label).Alike (other.addLabel place label) := by
  cases label with
  | none => exact halike
  | some name =>
      simp only [Emission.addLabel, halike.code, halike.labels, halike.notices, halike.full]
      split
      · exact ⟨halike.code, rfl, rfl, rfl⟩
      · exact ⟨halike.code, rfl, rfl, rfl⟩

theorem addInstruction (halike : emission.Alike other) (registers : Nat) (place : Place)
    (instruction : Instruction) :
    (emission.addInstruction registers place instruction).Alike
      (other.addInstruction registers place instruction) := by
  simp only [Emission.addInstruction, halike.code, halike.labels, halike.notices, halike.full]
  split
  next =>
    obtain ⟨result, next, room, hemit, hother⟩ := Builder.emit_alike halike.code
      instruction.opcode.toByte
      (instruction.operands.foldl (OperandBytes.add registers emission.builder.code.size)
        ⟨[], emission.labels, []⟩).bytes
    rw [hemit, hother]
    cases result with
    | ok _ => exact ⟨rfl, rfl, rfl, rfl⟩
    | error cause => cases cause <;> exact ⟨rfl, rfl, rfl, rfl⟩
  next => exact ⟨halike.code, rfl, rfl, rfl⟩

/-- A statement is taken in the same way by emissions that are alike. -/
theorem addStatement (halike : emission.Alike other) (registers : Nat) (statement : Statement) :
    (emission.addStatement registers statement).Alike
      (other.addStatement registers statement) := by
  have hstopped : other.stopped = emission.stopped := by
    rw [Emission.stopped, halike.full, halike.notices, Emission.stopped]
  simp only [Emission.addStatement, hstopped]
  split
  next => exact halike
  next =>
    have hlabel := halike.addLabel statement.place statement.label
    split
    next => exact hlabel
    next instruction _ => exact hlabel.addInstruction registers statement.place instruction

/-- Any statements are taken in the same way by emissions that are alike. -/
theorem foldl_addStatement (halike : emission.Alike other) (registers : Nat)
    (statements : List Statement) :
    (statements.foldl (Emission.addStatement registers) emission).Alike
      (statements.foldl (Emission.addStatement registers) other) := by
  induction statements generalizing emission other with
  | nil => exact halike
  | cons statement statements ih => exact ih (halike.addStatement registers statement)

theorem finish (halike : emission.Alike other) : emission.finish.Alike other.finish := by
  obtain ⟨next, room, found, hnext, hother⟩ := foldl_resolve_alike halike.code
    ⟨emission.labels.sites, []⟩ emission.notices emission.labels.pending.reverse
  simp only [Emission.finish, halike.labels, halike.notices, hnext, hother]
  exact ⟨rfl, rfl, rfl, halike.full⟩

end Alike

/-- Statements are emitted alike, whatever room the builder has set aside. -/
theorem alike_emitStatements {builder other : Builder} (hcode : other.code = builder.code)
    (registers : Nat) (statements : List Statement) (labels : LabelTable) :
    (emitStatements registers statements builder labels).Alike
      (emitStatements registers statements other labels) := by
  have hstart : Alike ⟨builder, labels, [], false⟩ ⟨other, labels, [], false⟩ :=
    ⟨hcode, rfl, rfl, rfl⟩
  have hfold := hstart.foldl_addStatement registers statements
  simp only [emitStatements, hfold.notices]
  split
  · exact hfold.finish
  · exact hfold

end Emission

/-! ### Assemblers with a past -/

namespace Assembler

/-- Assemblers that differ in the room they have set aside have the same to say about a source. -/
theorem result_of_ready {registers : Nat} {assembler fresh : Assembler}
    (hassembler : assembler.Ready registers) (hfresh : fresh.Ready registers) (name : String)
    (source : Source) :
    (assembler.assemble name source).result = (fresh.assemble name source).result := by
  have hcode : fresh.builder.code = assembler.builder.code := by
    rw [hfresh.code, hassembler.code]
  have halike := Emission.alike_emitStatements hcode registers source.parse.statements .empty
  simp only [assemble, hassembler.registers, hassembler.labels, hfresh.registers, hfresh.labels]
  split
  next =>
    simp only [halike.notices, Builder.freeze, halike.code]
    split
    next => rfl
    next => rfl
  next =>
    simp only [Builder.freeze, hcode]
    split
    next => rfl
    next => rfl

/-- What a host can do with an assembler. Sources are assembled on hosts of any kind, among them
such that refuse what they are sent or break off. -/
inductive Use : Type 1 where
  | assemble {σ : Type} (device : Device σ) (host : σ) (name : String) (source : Source)
  | clean
  | setVerbose (verbose : Bool)

/-- The assembler after it has been used. -/
def use (assembler : Assembler) : Use → Assembler
  | .assemble device host name source => (assembler.assembleOn device name source host).assembler
  | .clean => assembler.clean
  | .setVerbose verbose => { assembler with verbose }

/-- The assembler after it has been used several times. -/
def useAll (assembler : Assembler) (uses : List Use) : Assembler := uses.foldl use assembler

/-- A setting does no more than a host can do. -/
def IsSetting (setting : Assembler → Except Failure Assembler) : Prop :=
  ∀ before after, setting before = .ok after → ∃ uses, after = before.useAll uses

/-- Whatever was assembled, the assembler is ready for the next source. -/
theorem ready_of_assemble (assembler : Assembler) (name : String) (source : Source) :
    (assembler.assemble name source).assembler.Ready assembler.registers := by
  simp only [assemble]
  split <;> split <;> exact ⟨rfl, rfl, rfl⟩

/-- An assembler is ready again after every use. -/
theorem Ready.use {registers : Nat} {assembler : Assembler} (hready : assembler.Ready registers)
    (use : Use) : (assembler.use use).Ready registers := by
  cases use with
  | assemble device host name source =>
      rw [← hready.registers]
      exact ready_of_assemble assembler name source
  | clean => exact ⟨hready.registers, rfl, rfl⟩
  | setVerbose verbose => exact ⟨hready.registers, hready.code, hready.labels⟩

/-- An assembler is ready again after any uses. -/
theorem Ready.useAll {registers : Nat} {assembler : Assembler} (hready : assembler.Ready registers)
    (uses : List Use) : (assembler.useAll uses).Ready registers := by
  induction uses generalizing assembler with
  | nil => exact hready
  | cons use uses ih => exact ih (hready.use use)

theorem Ready.settings {registers : Nat} {assembler start : Assembler}
    (hready : assembler.Ready registers) {settings : List (Assembler → Except Failure Assembler)}
    (hsettings : ∀ setting ∈ settings, IsSetting setting)
    (hstart : settings.foldlM (fun assembler setting => setting assembler) assembler = .ok start) :
    start.Ready registers := by
  induction settings generalizing assembler with
  | nil =>
      obtain rfl := Except.ok.inj hstart
      exact hready
  | cons setting settings ih =>
      obtain ⟨hfirst, hothers⟩ := List.forall_mem_cons.mp hsettings
      rw [List.foldlM_cons] at hstart
      cases hnext : setting assembler with
      | error failure =>
          rw [hnext] at hstart
          cases hstart
      | ok next =>
          rw [hnext] at hstart
          obtain ⟨uses, rfl⟩ := hfirst _ _ hnext
          exact ih (hready.useAll uses) hothers hstart

/-- A new assembler is ready. -/
theorem ready_of_new {registers : Int} {settings : List (Assembler → Except Failure Assembler)}
    (hsettings : ∀ setting ∈ settings, IsSetting setting) {start : Assembler}
    (hstart : Assembler.new registers settings = .ok start) : start.Ready registers.toNat := by
  unfold Assembler.new at hstart
  split at hstart
  next => cases hstart
  next => exact Ready.settings ⟨rfl, rfl, rfl⟩ hsettings hstart

/-- However an assembler was made and used, it holds no bytes and no labels in between, and the next
source gives the same program or the same diagnostics as with a new assembler for as many
registers. -/
theorem useAll_erased {registers : Int} {settings : List (Assembler → Except Failure Assembler)}
    (hsettings : ∀ setting ∈ settings, IsSetting setting) {start fresh : Assembler}
    (hstart : Assembler.new registers settings = .ok start)
    (hfresh : Assembler.new registers [] = .ok fresh) (uses : List Use) :
    (start.useAll uses).builder.code = #[] ∧
    (∀ name, (start.useAll uses).labels.site? name = none) ∧
    (start.useAll uses).labels.pending = [] ∧
    ∀ (name : String) (source : Source),
      ((start.useAll uses).assemble name source).result = (fresh.assemble name source).result ∧
      ∀ {σ : Type} {device : Device σ}, device.Returns → ∀ host,
        ((start.useAll uses).assembleOn device name source host).result =
          .ok (fresh.assemble name source).result := by
  have hready := (ready_of_new hsettings hstart).useAll uses
  have hnew : fresh.Ready registers.toNat := ready_of_new (by simp) hfresh
  refine ⟨hready.code, ?_, ?_, ?_⟩
  · intro name
    rw [hready.labels]
    simp [LabelTable.site?, LabelTable.empty]
  · rw [hready.labels]
    rfl
  · intro name source
    have hresult := result_of_ready hready hnew name source
    refine ⟨hresult, fun {σ device} hdevice host => ?_⟩
    obtain ⟨after, -, hafter, -⟩ :=
      hdevice.sendAll ((start.useAll uses).assemble name source).messages host []
    simp only [assembleOn, hafter, ← hresult]
    rfl

/-- A source that fails half-way leaves neither code nor labels to the next one. -/
theorem useAll_erased_of_half_done :
    let halfDone := Source.ofBytes (utf8Bytes "x: jmp y\nx: nop") none
    (((⟨1, true, .empty, .empty⟩ : Assembler).useAll
      [.assemble Device.keeping [] "half.s" halfDone, .clean]).assemble "" twoPushes).result =
        .ok (.ofCode #[28, 7, 28, 8]) := by
  intro halfDone
  have hsettings : ∀ setting ∈ [fun assembler : Assembler =>
      (.ok { assembler with verbose := true } : Except Failure Assembler)],
      IsSetting setting := by
    rw [List.forall_mem_singleton]
    rintro before after hset
    exact ⟨[.setVerbose true], (Except.ok.inj hset).symm⟩
  obtain ⟨-, -, -, hnext⟩ := @useAll_erased 1 _ hsettings ⟨1, true, .empty, .empty⟩
    ⟨1, false, .empty, .empty⟩ rfl rfl [.assemble Device.keeping [] "half.s" halfDone, .clean]
  rw [(hnext "" twoPushes).1, assemble_twoPushes]

end Assembler

end Octet
