import Mathlib.Tactic.Common
import Octet.Command
import Octet.Proofs.Cbor.Item
import Octet.Proofs.Storage

/-! # Cluster files

What is written for a cluster is recognised as a cluster file and read back as the
cluster, by the library and by the command alike; a cluster that is too large is
refused when it is read back. Reading accepts far more than what is written. Of what
it accepts, the look at the beginning of the data recognises just what has the magic
text there.
-/

namespace Octet

/-- A cluster is determined by its code. -/
theorem Cluster.ofCode_code (cluster : Cluster) : ofCode cluster.code = cluster := by
  obtain ⟨code, offsets, rfl⟩ := cluster
  rfl

namespace Image

open Cbor

/-! ### Recognising -/

/-- Looking for a part finds it exactly if it is there. -/
theorem occursIn_iff {part bytes : List UInt8} :
    occursIn part bytes = true ↔ part <:+: bytes := by
  induction bytes with
  | nil => simp [occursIn]
  | cons byte rest ih =>
      rw [occursIn, Bool.or_eq_true, List.isPrefixOf_iff_prefix, ih, List.infix_cons_iff]

/-- What fits all fields fits that of the magic text. -/
theorem readMagic_of_readFields {data : List UInt8} {fields : Fields}
    (hfields : readFields data = some fields) : readMagic data = some fields.magic := by
  simp only [readFields, Option.bind_eq_bind, Option.bind_eq_some_iff, Option.pure_def,
    Option.some.injEq] at hfields
  obtain ⟨item, hitem, entries, hentries, magic, hmagic, version, -, code, -, rfl⟩ := hfields
  simp [readMagic, hitem, hentries, hmagic]

/-- Data with the fields of a cluster file is recognised exactly if the magic text is near its
start. -/
theorem isClusterFile_iff_of_readFields {data : List UInt8} {fields : Fields}
    (hfields : readFields data = some fields) (hmagic : fields.magic = clusterMagic) :
    isClusterFile data = true ↔ utf8Bytes clusterMagic <:+: data.take 16 := by
  simp [isClusterFile, occursIn_iff, readMagic_of_readFields hfields, hmagic]

/-- What is accepted has the fields of a cluster file. -/
theorem exists_readFields_of_toCluster {data : List UInt8} {cluster : Cluster}
    (haccepted : toCluster data = .ok cluster) :
    ∃ fields, readFields data = some fields ∧ fields.magic = clusterMagic := by
  unfold toCluster at haccepted
  split at haccepted
  next => cases haccepted
  next fields hfields =>
    refine ⟨fields, hfields, ?_⟩
    by_contra hmagic
    simp [hmagic] at haccepted

/-! ### Reading back what was written -/

/-- The bytes of a cluster as they are written, and the item that they make. -/
def codePart : Option Cluster → List UInt8 × Item
  | none => (encodeNull, .null)
  | some cluster => (encodeBytes cluster.code.toList, .bytes [cluster.code.toList])

/-- The entries of the file of a cluster. -/
def fileEntries (cluster : Option Cluster) : List ((List UInt8 × Item) × (List UInt8 × Item)) :=
  [((encodeUnsigned 1, .unsigned 1),
      (encodeText (utf8Bytes clusterMagic), .text [utf8Bytes clusterMagic])),
    ((encodeUnsigned 2, .unsigned 2), (encodeUnsigned clusterVersion, .unsigned clusterVersion)),
    ((encodeUnsigned 3, .unsigned 3), codePart cluster)]

/-- A cluster is written as a map with three entries. -/
theorem encode_eq (cluster : Option Cluster) :
    Cluster.encode cluster =
      encodeHead .map 3 ++ ((partsOf (fileEntries cluster)).map Prod.fst).flatten := by
  cases cluster <;> simp [Cluster.encode, partsOf, fileEntries, codePart]

theorem encodes_codePart {cluster : Option Cluster} (hsize : (cluster.getD .empty).size < 2 ^ 64) :
    Encodes (codePart cluster).1 (codePart cluster).2 := by
  cases cluster with
  | none => exact encodes_null
  | some cluster => exact encodes_bytes (by simpa [Cluster.size] using hsize)

/-- All keys and values of the file are read back. -/
theorem encodes_fileEntries {cluster : Option Cluster}
    (hsize : (cluster.getD .empty).size < 2 ^ 64) :
    ∀ part ∈ partsOf (fileEntries cluster), Encodes part.1 part.2 := by
  have hsmall {value : Nat} (hvalue : value < 4) :
      Encodes (encodeUnsigned value) (.unsigned value) := encodes_unsigned (by omega)
  have hmagic : Encodes (encodeText (utf8Bytes clusterMagic)) (.text [utf8Bytes clusterMagic]) :=
    encodes_text (by decide +kernel)
  simp only [partsOf, fileEntries, List.flatMap_cons, List.flatMap_nil, List.cons_append,
    List.nil_append, List.forall_mem_cons]
  exact ⟨hsmall (by decide), hmagic, hsmall (by decide), hsmall (by decide), hsmall (by decide),
    encodes_codePart hsize, by simp⟩

theorem bytesField_codePart (cluster : Option Cluster) :
    bytesField (codePart cluster).2 = some (cluster.map (·.code.toList)) := by
  cases cluster with
  | none => rfl
  | some cluster => simp [codePart, bytesField, content?]

theorem fieldOf_entries {α : Type} (read : Item → Field α) (first second third : Item) :
    let entries := [(.number 1, first), (.number 2, second), (.number 3, third)]
    fieldOf read 1 entries = read first ∧ fieldOf read 2 entries = read second ∧
      fieldOf read 3 entries = read third := ⟨rfl, rfl, rfl⟩

/-- The fields of the file of a cluster are read back. -/
theorem readFields_encode {cluster : Option Cluster}
    (hsize : (cluster.getD .empty).size < 2 ^ 64) :
    readFields (Cluster.encode cluster) =
      some ⟨clusterMagic, clusterVersion, (cluster.getD .empty).code.toList⟩ := by
  have hdecode := decode_of_encodes (fileEntries cluster) (show 3 ≤ maxElements by decide)
    (encodes_fileEntries hsize)
  rw [show (fileEntries cluster).length = 3 from rfl, ← encode_eq] at hdecode
  have hentries : entries? (.map ((fileEntries cluster).map fun entry =>
      (entry.1.2, entry.2.2))) = some [(.number 1, .text [utf8Bytes clusterMagic]),
        (.number 2, .unsigned clusterVersion), (.number 3, (codePart cluster).2)] := rfl
  have hmagic : textField (.text [utf8Bytes clusterMagic]) = some (some clusterMagic) := by
    decide +kernel
  have hversion : numberField maxVersion (.unsigned clusterVersion) =
      some (some clusterVersion) := by decide +kernel
  have hcode : (cluster.map (·.code.toList)).getD [] = (cluster.getD .empty).code.toList := by
    cases cluster <;> rfl
  simp [readFields, hdecode, hentries, fieldOf_entries, hmagic, hversion, bytesField_codePart,
    hcode]

/-- The magic text stands at the beginning of the file of a cluster. -/
theorem infix_encode (cluster : Option Cluster) :
    utf8Bytes clusterMagic <:+: (Cluster.encode cluster).take 16 := by
  have hstart : encodeHead .map 3 ++ encodeUnsigned 1 ++ encodeText (utf8Bytes clusterMagic) =
      [0xA3, 0x01, 0x64] ++ utf8Bytes clusterMagic := by decide +kernel
  have hbegins : [0xA3, 0x01, 0x64] ++ utf8Bytes clusterMagic <+: Cluster.encode cluster := by
    rw [← hstart]
    simp only [Cluster.encode, List.append_assoc, List.prefix_append_right_inj, List.prefix_append]
  have hwindow : [0xA3, 0x01, 0x64] ++ utf8Bytes clusterMagic <+:
      (Cluster.encode cluster).take 16 :=
    List.prefix_take_iff.mpr ⟨hbegins, by decide +kernel⟩
  exact (List.suffix_append _ _).isInfix.trans hwindow.isInfix

/-- What is written is recognised. -/
theorem isClusterFile_encode {cluster : Option Cluster}
    (hsize : (cluster.getD .empty).size < 2 ^ 64) :
    isClusterFile (Cluster.encode cluster) = true :=
  (isClusterFile_iff_of_readFields (readFields_encode hsize) rfl).mpr (infix_encode cluster)

/-- What is written is read back, if it is not too large. -/
theorem toCluster_encode {cluster : Option Cluster}
    (hsize : (cluster.getD .empty).size < 2 ^ 64) :
    toCluster (Cluster.encode cluster) =
      if maxClusterSize < (cluster.getD .empty).size then
        .error (.tooLarge (cluster.getD .empty).size)
      else .ok (cluster.getD .empty) := by
  have hlength : (cluster.getD .empty).code.toList.length = (cluster.getD .empty).size :=
    Array.length_toList
  simp only [toCluster, readFields_encode hsize, ne_eq, not_true_eq_false, ↓reduceIte, hlength,
    Array.toArray_toList, Cluster.ofCode_code]

end Image

/-! ### Files -/

namespace Storage

/-- A cluster can be saved wherever a file can be stored, and the file holds what is written for
it. -/
theorem exists_saveCluster {storage next : Storage} {name : String} {content : List UInt8}
    (hwrite : storage.write name content = .ok next) (cluster : Option Cluster) :
    ∃ saved, storage.saveCluster name cluster = .ok saved ∧
      saved.read name = .ok (Cluster.encode cluster) := by
  obtain ⟨saved, hsaved⟩ := exists_write hwrite (Cluster.encode cluster)
  exact ⟨saved, by simp only [saveCluster, hsaved], read_of_write hsaved⟩

/-- A stored file that is accepted is loaded. -/
theorem loadCluster_of_toCluster {storage : Storage} {name : String} {content : List UInt8}
    {cluster : Cluster} (hread : storage.read name = .ok content)
    (haccepted : Image.toCluster content = .ok cluster) :
    storage.loadCluster name = .ok cluster := by
  simp only [loadCluster, hread, haccepted]

end Storage

/-- The command decodes a file that it recognises. -/
theorem Command.loadProgram_of_toCluster {storage : Storage} {name : String} {content : List UInt8}
    {cluster : Cluster} (hread : storage.read name = .ok content)
    (haccepted : Image.toCluster content = .ok cluster)
    (hrecognised : Image.isClusterFile content = true) (registers : Int) :
    loadProgram storage registers name = .ok cluster := by
  simp only [loadProgram, hread, hrecognised, ↓reduceIte, haccepted, Except.mapError]

/-- The file of a cluster, or of none, is recognised as a cluster file and read back as the cluster,
or as the empty one, with its bytes and its table. So wherever a file can be stored, a cluster can be
saved, and both the library and the command then load it, whatever registers the command is told of.
Nothing is read back of a cluster that is larger than branches can address. (The length of a byte
string has at most 64 bits.) -/
theorem Cluster.encode_roundTrip :
    (∀ cluster : Option Cluster, (∀ found ∈ cluster, found.size ≤ maxClusterSize) →
      let program := cluster.getD .empty
      Image.isClusterFile (encode cluster) = true ∧
      Image.toCluster (encode cluster) = .ok program ∧
      ∀ (storage : Storage) (name : String),
        (∃ content next, storage.write name content = .ok next) →
          ∃ saved, storage.saveCluster name cluster = .ok saved ∧
            saved.loadCluster name = .ok program ∧
            ∀ registers, Command.loadProgram saved registers name = .ok program) ∧
    (∀ cluster : Cluster, maxClusterSize < cluster.size → cluster.size < 2 ^ 64 →
      Image.toCluster (encode (some cluster)) = .error (.tooLarge cluster.size) ∧
        (Image.Problem.tooLarge cluster.size).failure.root = .cause .clusterTooLarge) := by
  refine ⟨?_, ?_⟩
  · intro cluster hsize program
    have hfits : program.size ≤ maxClusterSize := by
      cases cluster with
      | none => exact Nat.zero_le _
      | some found => exact hsize found rfl
    have hbound : program.size < 2 ^ 64 := by
      unfold maxClusterSize at hfits
      omega
    have hrecognised := Image.isClusterFile_encode hbound
    have haccepted : Image.toCluster (encode cluster) = .ok program :=
      (Image.toCluster_encode hbound).trans (if_neg (Nat.not_lt.mpr hfits))
    refine ⟨hrecognised, haccepted, ?_⟩
    rintro storage name ⟨content, next, hwrite⟩
    obtain ⟨saved, hsaved, hread⟩ := Storage.exists_saveCluster hwrite cluster
    exact ⟨saved, hsaved, Storage.loadCluster_of_toCluster hread haccepted,
      Command.loadProgram_of_toCluster hread haccepted hrecognised⟩
  · intro cluster hlarge hbound
    have hread := Image.toCluster_encode (show ((some cluster).getD .empty).size < _ from hbound)
    exact ⟨hread.trans (if_pos hlarge), rfl⟩

/-- A cluster with one instruction, none at all and one that is too large by a byte. -/
theorem Cluster.encode_roundTrip_of_add :
    let cluster := ofCode #[3, 0, 5]
    let storage := Storage.new ["home"]
    (∃ saved, storage.saveCluster "p" (some cluster) = .ok saved ∧
      saved.loadCluster "p" = .ok cluster ∧
      Command.loadProgram saved 4 "p" = .ok cluster) ∧
    Image.toCluster (encode none) = .ok .empty ∧
    Image.toCluster (encode (some (ofCode (Array.replicate 65536 0)))) =
      .error (.tooLarge 65536) := by
  obtain ⟨hfits, hlarge⟩ := encode_roundTrip
  intro cluster storage
  obtain ⟨-, -, hfiles⟩ := hfits (some cluster) (by simp [cluster, size, ofCode, maxClusterSize])
  have hwrite : storage.write "p" [] =
      .ok ⟨["home"], [(["p", "home"], .file []), (["home"], .folder)]⟩ := by decide +kernel
  obtain ⟨saved, hsaved, hloaded, hcommand⟩ := hfiles storage "p" ⟨[], _, hwrite⟩
  have hsize : (ofCode (Array.replicate 65536 0)).size = 65536 := Array.size_replicate
  obtain ⟨hrefused, -⟩ := hlarge (ofCode (Array.replicate 65536 0)) (by rw [hsize]; decide)
    (by rw [hsize]; decide)
  exact ⟨⟨saved, hsaved, hloaded, hcommand 4⟩, (hfits none (by simp)).2.1, by rw [hrefused, hsize]⟩

/-- Data that the library accepts is recognised by the command exactly if the magic text stands in
its first sixteen bytes; then both load the same cluster from it. -/
theorem Image.isClusterFile_iff {data : List UInt8} {cluster : Cluster}
    (haccepted : toCluster data = .ok cluster) :
    (isClusterFile data = true ↔ utf8Bytes clusterMagic <:+: data.take 16) ∧
    ∀ (storage : Storage) (name : String) (registers : Int), storage.read name = .ok data →
      storage.loadCluster name = .ok cluster ∧
        (utf8Bytes clusterMagic <:+: data.take 16 →
          Command.loadProgram storage registers name = .ok cluster) := by
  obtain ⟨fields, hfields, hmagic⟩ := exists_readFields_of_toCluster haccepted
  have hrecognised := isClusterFile_iff_of_readFields hfields hmagic
  refine ⟨hrecognised, ?_⟩
  intro storage name registers hread
  refine ⟨Storage.loadCluster_of_toCluster hread haccepted, ?_⟩
  intro hwindow
  exact Command.loadProgram_of_toCluster hread haccepted (hrecognised.mpr hwindow) registers

/-- A map of open length, with texts for two of its keys and an array for the bytes. -/
theorem Image.isClusterFile_iff_of_loose :
    let data : List UInt8 := [0xBF, 0x61, 0x31, 0x64, 0x53, 0x41, 0x4C, 0x38, 0x61, 0x32, 0x01,
      0x03, 0x83, 0x03, 0x00, 0x05, 0xFF]
    toCluster data = .ok (.ofCode #[3, 0, 5]) ∧ isClusterFile data = true := by
  intro data
  have hfields : readFields data = some ⟨clusterMagic, clusterVersion, [3, 0, 5]⟩ := by
    decide +kernel
  have haccepted : toCluster data = .ok (.ofCode #[3, 0, 5]) := by
    simp [toCluster, hfields, maxClusterSize]
  have hwindow : utf8Bytes clusterMagic <:+: data.take 16 :=
    ⟨data.take 4, (data.take 16).drop 8, by decide +kernel⟩
  exact ⟨haccepted, (isClusterFile_iff haccepted).1.mpr hwindow⟩

/-- With its entries in another order, valid data has the magic text behind its beginning: the
library loads it, and the command takes it for a source text and refuses it. -/
theorem Image.isClusterFile_of_reordered :
    let data : List UInt8 := [0xA3, 0x03, 0x46, 0x03, 0x00, 0x05, 0x03, 0x00, 0x05, 0x02, 0x01,
      0x01, 0x64, 0x53, 0x41, 0x4C, 0x38]
    let storage : Storage := ⟨["home"], [(["p", "home"], .file data), (["home"], .folder)]⟩
    toCluster data = .ok (.ofCode #[3, 0, 5, 3, 0, 5]) ∧ isClusterFile data = false ∧
      storage.loadCluster "p" = .ok (.ofCode #[3, 0, 5, 3, 0, 5]) ∧
      ∀ cluster, Command.loadProgram storage 4 "p" ≠ .ok cluster := by
  intro data storage
  have hfields : readFields data = some ⟨clusterMagic, clusterVersion, [3, 0, 5, 3, 0, 5]⟩ := by
    decide +kernel
  have haccepted : toCluster data = .ok (.ofCode #[3, 0, 5, 3, 0, 5]) := by
    simp [toCluster, hfields, maxClusterSize]
  have hunrecognised : isClusterFile data = false := by decide +kernel
  have hread : storage.read "p" = .ok data := by decide +kernel
  have hrefused : (do
      let assembler ← (Assembler.new 4 []).toOption
      (assembler.assemble "p" (Source.ofBytes data none)).result.toOption).isNone = true := by
    decide +kernel
  refine ⟨haccepted, hunrecognised, Storage.loadCluster_of_toCluster hread haccepted, ?_⟩
  intro cluster hloaded
  simp only [Command.loadProgram, hread, hunrecognised, Bool.false_eq_true, ↓reduceIte] at hloaded
  cases hnew : Assembler.new 4 [] with
  | error failure => simp [hnew] at hloaded
  | ok assembler =>
      cases hresult : (assembler.assemble "p" (Source.ofBytes data none)).result with
      | error diagnostics => simp [hnew, hresult, Except.mapError] at hloaded
      | ok found => simp [hnew, hresult, Except.toOption] at hrefused

end Octet
