import Mathlib.Tactic.IntervalCases
import Octet.Proofs.Cluster.Image
import Octet.Proofs.Relocation

/-! # Sources and cluster files

The command looks at a file to tell a cluster file from a source. What it takes for a
cluster file starts with the head of a map or of a tag, and no character starts with
the head of a map. So a source that can be assembled is never taken for a cluster file
unless it starts with a byte that is also the head of a tag.
-/

namespace Octet

/-! ### How data starts -/

namespace Cbor

/-- The head of an item starts with a byte that names its major type. A tag has a number, so its
head is not of the form that leaves the argument open. -/
theorem first_of_readHead {first : UInt8} {rest after : List UInt8} {head : Head}
    (hhead : readHead (first :: rest) = some (head, after)) :
    head.major = Major.ofByte first ∧ (head.major = .tag → first.toNat % 32 < 28) := by
  have hargument {info count : Nat}
      (hread : readArgument (Major.ofByte first) info count rest = some (head, after)) :
      head.major = Major.ofByte first := by
    unfold readArgument at hread
    split at hread
    next =>
      obtain ⟨rfl, -⟩ := Prod.mk.inj (Option.some.inj hread)
      rfl
    next => cases hread
  have hopen {major : Major} (hmajor : Major.ofByte first = major) (hother : major ≠ .tag)
      (hread : some (Head.mk (Major.ofByte first) (first.toNat % 32) none, rest) =
        some (head, after)) :
      head.major = Major.ofByte first ∧ (head.major = .tag → first.toNat % 32 < 28) := by
    obtain ⟨rfl, -⟩ := Prod.mk.inj (Option.some.inj hread)
    exact ⟨rfl, fun htag => absurd (hmajor.symm.trans htag) hother⟩
  simp only [readHead] at hhead
  split at hhead
  next hshort =>
    obtain ⟨rfl, -⟩ := Prod.mk.inj (Option.some.inj hhead)
    exact ⟨rfl, fun _ => by omega⟩
  next =>
    split at hhead
    next =>
      split at hhead
      next found more hfound =>
        obtain ⟨-, hsame⟩ := Option.ite_none_left_eq_some.mp hhead
        obtain ⟨rfl, rfl⟩ := Prod.mk.inj (Option.some.inj hsame)
        exact ⟨hargument hfound, fun _ => by omega⟩
      next => cases hhead
    next => exact ⟨hargument hhead, fun _ => by omega⟩
    next => exact ⟨hargument hhead, fun _ => by omega⟩
    next => exact ⟨hargument hhead, fun _ => by omega⟩
    next =>
      split at hhead
      next hmajor => exact hopen hmajor (by decide) hhead
      next hmajor => exact hopen hmajor (by decide) hhead
      next hmajor => exact hopen hmajor (by decide) hhead
      next hmajor => exact hopen hmajor (by decide) hhead
      next => cases hhead
    next => cases hhead

/-- The major type of a byte is in its upper three bits. -/
theorem Major.number_ofByte (byte : UInt8) : (Major.ofByte byte).number = byte.toNat / 32 := by
  have hlt : byte.toNat / 32 < 8 := Nat.div_lt_of_lt_mul byte.toNat_lt
  unfold Major.ofByte
  generalize byte.toNat / 32 = number at hlt ⊢
  interval_cases number <;> rfl

/-- The major type that an item is written with. -/
def Item.major : Item → Major
  | unsigned _ => .unsigned
  | negative _ => .negative
  | bytes _ => .bytes
  | text _ => .text
  | array _ => .array
  | map _ => .map
  | tag _ _ => .tag
  | boolean _ | null | undefined | simple _ | float => .special

theorem major_specialItem (info argument : Nat) : (specialItem info argument).major = .special := by
  unfold specialItem
  split <;> rfl

/-- What is read as an item starts with a head of its major type. -/
theorem exists_readHead_of_readItem {fuel depth : Nat} {inTag : Bool} {bytes after : List UInt8}
    {item : Item} (hread : readItem fuel depth inTag bytes = some (item, after)) :
    ∃ head rest, readHead bytes = some (head, rest) ∧ head.major = item.major := by
  have hpair {found : Item} {rest : List UInt8} (hsame : some (found, rest) = some (item, after)) :
      found.major = item.major := by rw [(Prod.mk.inj (Option.some.inj hsame)).1]
  cases fuel with
  | zero => simp [readItem] at hread
  | succ fuel =>
      rw [readItem] at hread
      split at hread
      next => cases hread
      next head rest hhead =>
        refine ⟨head, rest, hhead, ?_⟩
        cases hmajor : head.major with
        | unsigned | negative =>
            rw [hmajor] at hread
            exact hpair hread
        | bytes | text =>
            rw [hmajor] at hread
            obtain ⟨_, -, hsame⟩ := Option.map_eq_some_iff.mp hread
            exact hpair (congrArg some hsame)
        | special =>
            rw [hmajor] at hread
            exact (major_specialItem _ _).symm.trans (hpair hread)
        | tag =>
            simp only [hmajor] at hread
            obtain ⟨-, hcontent⟩ := Option.ite_none_left_eq_some.mp hread
            split at hcontent
            next => exact hpair hcontent
            next => cases hcontent
        | array =>
            simp only [hmajor] at hread
            obtain ⟨-, hitems⟩ := Option.ite_none_left_eq_some.mp hread
            split at hitems
            next => exact hpair hitems
            next => cases hitems
        | map =>
            simp only [hmajor] at hread
            obtain ⟨-, hitems⟩ := Option.ite_none_left_eq_some.mp hread
            split at hitems
            next =>
              obtain ⟨-, hsame⟩ := Option.ite_none_right_eq_some.mp hitems
              exact hpair hsame
            next => cases hitems

end Cbor

namespace Image

open Cbor

/-- Only a map has entries, be it behind tags; null has none. -/
theorem major_of_entries? {item : Item} {entries : List (Key × Item)}
    (hentries : entries? item = some entries) (hsome : entries ≠ []) :
    item.major = .map ∨ item.major = .tag := by
  cases item with
  | map => exact .inl rfl
  | tag => exact .inr rfl
  | null | undefined =>
      obtain rfl := Option.some.inj hentries
      exact absurd rfl hsome
  | _ => cases hentries

/-- Data with a magic text starts with the head of a map or of a tag. -/
theorem first_of_readMagic {data : List UInt8} {magic : String}
    (hmagic : readMagic data = some magic) (hsome : magic ≠ "") :
    ∃ first rest, data = first :: rest ∧ 0xA0 ≤ first ∧ first ≤ 0xDB := by
  simp only [readMagic, Option.bind_eq_bind, Option.bind_eq_some_iff, Option.pure_def,
    Option.some.injEq] at hmagic
  obtain ⟨item, hitem, entries, hentries, field, hfield, rfl⟩ := hmagic
  have hentry : entries ≠ [] := by
    rintro rfl
    obtain rfl := Option.some.inj hfield
    exact hsome rfl
  have hmajor := major_of_entries? hentries hentry
  unfold decode at hitem
  split at hitem
  next found hread =>
    obtain rfl := Option.some.inj hitem
    obtain ⟨head, rest, hhead, hsame⟩ := exists_readHead_of_readItem hread
    cases data with
    | nil => cases hhead
    | cons first tail =>
        obtain ⟨hfirst, hshort⟩ := first_of_readHead hhead
        have hnumber := Major.number_ofByte first
        rw [← hfirst] at hnumber
        rw [← hsame] at hmajor
        refine ⟨first, tail, rfl, ?_⟩
        rw [UInt8.le_iff_toNat_le, UInt8.le_iff_toNat_le]
        change 160 ≤ first.toNat ∧ first.toNat ≤ 219
        rcases hmajor with hmap | htag
        · rw [hmap] at hnumber
          change 5 = first.toNat / 32 at hnumber
          omega
        · have hlow := hshort htag
          rw [htag] at hnumber
          change 6 = first.toNat / 32 at hnumber
          omega
  next => cases hitem

end Image

/-! ### How sources start -/

/-- A source that is assembled has nothing but characters. -/
theorem Assembler.fine_of_assemble {registers : Nat} {assembler : Assembler}
    (hready : assembler.Ready registers) {name : String} {source : Source} {cluster : Cluster}
    (hresult : (assembler.assemble name source).result = .ok cluster) :
    ∀ symbol ∈ source.symbols, symbol.Fine := by
  obtain ⟨hparsed, -⟩ := accepted_of_assemble hready hresult
  exact Source.fine_of_readable (Source.says_of_parse hparsed).1

/-- No character starts with a byte that can only continue one. -/
theorem decodeUtf8_of_tail {first : UInt8} (hlow : 0x80 ≤ first) (hhigh : first < 0xC0)
    (rest : List UInt8) :
    decodeUtf8 (first :: rest) = .stray first false :: decodeUtf8 rest := by
  have hascii : ¬ first < 0x80 := UInt8.not_lt.mpr hlow
  have hlead : first < 0xC2 := UInt8.lt_trans hhigh (by decide)
  refine @decodeUtf8_cons first [] rest _ ?_
  simp [firstSymbol, hascii, leadingByte?, hlead]

/-! ### Files -/

/-- There is a new assembler wherever there is one at all. -/
theorem Assembler.Reachable.exists_new {registers : Int} {assembler : Assembler}
    (hreachable : assembler.Reachable registers) :
    ∃ fresh, Assembler.new registers [] = .ok fresh := by
  induction hreachable with
  | new hnew => exact ⟨_, hnew⟩
  | verbose _ _ ih => exact ih
  | assembled _ _ _ ih => exact ih

/-- A file that is not recognised is assembled, and its program does not depend on its name. -/
theorem Command.loadProgram_of_assemble {registers : Int} {assembler : Assembler}
    (hassembler : assembler.Reachable registers) {data : List UInt8} {name : String}
    {cluster : Cluster}
    (hresult : (assembler.assemble name (.ofBytes data none)).result = .ok cluster)
    (hunrecognised : Image.isClusterFile data = false) {storage : Storage} {file : String}
    (hread : storage.read file = .ok data) :
    loadProgram storage registers file = .ok cluster := by
  obtain ⟨fresh, hfresh⟩ := hassembler.exists_new
  have hnew : fresh.Reachable registers := .new hfresh
  obtain ⟨hparsed, -⟩ := Assembler.accepted_of_assemble hassembler.ready hresult
  have hsame : (fresh.assemble file (.ofBytes data none)).result = .ok cluster :=
    Assembler.result_of_unplaced hassembler.ready hnew.ready hresult hparsed rfl
  simp only [loadProgram, hread, hunrecognised, Bool.false_eq_true, ↓reduceIte, hfresh, hsame,
    Except.mapError]

/-- A source that is assembled, and does not start with the head of a tag, is not taken for a
cluster file. So the command assembles it from a file, and gets the same program. -/
theorem isClusterFile_of_assembled {registers : Int} {assembler : Assembler}
    (hassembler : assembler.Reachable registers) {data : List UInt8}
    (htag : ∀ first ∈ data.head?, ¬ (0xC0 ≤ first ∧ first ≤ 0xDB)) {name : String}
    {cluster : Cluster}
    (hresult : (assembler.assemble name (.ofBytes data none)).result = .ok cluster) :
    Image.isClusterFile data = false ∧
      ∀ (storage : Storage) (file : String), storage.read file = .ok data →
        Command.loadProgram storage registers file = .ok cluster := by
  have hfine := Assembler.fine_of_assemble hassembler.ready hresult
  have hunrecognised : Image.isClusterFile data = false := by
    rw [Bool.eq_false_iff]
    intro hrecognised
    obtain ⟨-, hmagic⟩ := Bool.and_eq_true_iff.mp hrecognised
    obtain ⟨first, rest, rfl, hlow, hhigh⟩ :=
      Image.first_of_readMagic (eq_of_beq hmagic) (by decide)
    -- a head of a map is no head of a tag, and starts no character
    have hmap : first < 0xC0 := by
      rw [← UInt8.not_le]
      exact fun hle => htag first rfl ⟨hle, hhigh⟩
    have hstray := decodeUtf8_of_tail (UInt8.le_trans (by decide) hlow) hmap rest
    obtain ⟨c, -, hchar⟩ := hfine (.stray first false) (by simp [Source.ofBytes, hstray])
    cases hchar
  refine ⟨hunrecognised, ?_⟩
  intro storage file hread
  exact Command.loadProgram_of_assemble hassembler hresult hunrecognised hread

/-- A source with the magic text in a comment at its start. -/
def magicComment : List UInt8 := utf8Bytes "# SAL8\npush 7"

/-- A source with the magic text in a comment at its start is still assembled. -/
theorem isClusterFile_of_assembled_of_comment :
    let storage : Storage :=
      ⟨["home"], [(["p", "home"], .file magicComment), (["home"], .folder)]⟩
    utf8Bytes clusterMagic <:+: magicComment.take 16 ∧ Image.isClusterFile magicComment = false ∧
      ∃ cluster, Command.loadProgram storage 1 "p" = .ok cluster ∧ cluster.code = #[28, 7] := by
  intro storage
  have hassembler : Assembler.Reachable 1 ⟨1, false, .empty, .empty⟩ := .new rfl
  have hcode : ((⟨1, false, .empty, .empty⟩ : Assembler).assemble ""
      (.ofBytes magicComment none)).result.map Cluster.code = .ok #[28, 7] := by
    decide +kernel
  obtain ⟨cluster, hresult, hbytes⟩ := map_eq_ok_iff.mp hcode
  have hfirst : ∀ first ∈ magicComment.head?, ¬ (0xC0 ≤ first ∧ first ≤ 0xDB) := by decide +kernel
  obtain ⟨hunrecognised, hloads⟩ := isClusterFile_of_assembled hassembler hfirst hresult
  have hread : storage.read "p" = .ok magicComment := by decide +kernel
  refine ⟨⟨magicComment.take 2, (magicComment.take 16).drop 6, by decide +kernel⟩, hunrecognised,
    cluster, hloads storage "p" hread, hbytes⟩

end Octet
