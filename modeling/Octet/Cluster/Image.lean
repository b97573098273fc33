import Octet.Cbor.Item
import Octet.Cluster
import Octet.Failure
import Octet.Text.Quoted

/-! # Cluster files

A cluster is stored as a map with three entries: a magic text, a version and the
bytes of the program. Writing gives one form for each program. Reading takes any
map in which these entries fit: keys may be numbers or texts, the first entry of
a key counts, other entries are passed over, tags are looked through, and an entry
that is missing or null leaves its field empty.
-/

namespace Octet

/-- The text that marks a cluster file. -/
def clusterMagic : String := "SAL8"

/-- The version of cluster files. -/
def clusterVersion : Nat := 1

namespace Cluster

/-- The file of a cluster. Without a cluster there is a file as well, with null for its bytes. -/
def encode (cluster : Option Cluster) : List UInt8 :=
  Cbor.encodeHead .map 3
    ++ Cbor.encodeUnsigned 1 ++ Cbor.encodeText (utf8Bytes clusterMagic)
    ++ Cbor.encodeUnsigned 2 ++ Cbor.encodeUnsigned clusterVersion
    ++ Cbor.encodeUnsigned 3
    ++ (match cluster with
        | none => Cbor.encodeNull
        | some cluster => Cbor.encodeBytes cluster.code.toList)

end Cluster

namespace Image

open Cbor

/-- The tag that marks data as a data item and says nothing of its content. -/
def selfDescribedTag : Nat := 55799

/-- An item without its tags. -/
inductive Content where
  | plain (item : Item)
  /-- A number that was written as a byte string. -/
  | bignum (negative : Bool) (bytes : List UInt8)

/-- Whether the content of a tag has a type that the tag admits. -/
def tagAdmits (number : Nat) (content : Item) : Bool :=
  match number, content with
  | 0, .text _ => true
  | 0, _ => false
  | 1, .unsigned _ | 1, .negative _ | 1, .float => true
  | 1, _ => false
  | 2, .bytes _ | 3, .bytes _ => true
  | 2, _ | 3, _ => false
  | _, _ => true

/-- Looks through the tags of an item; none if a tag does not admit what it stands before. -/
def content? : Item → Option Content
  | .tag number content =>
    if number = selfDescribedTag then content? content
    else if !tagAdmits number content then none
    else
      match number, content with
      | 2, .bytes chunks => some (.bignum false chunks.flatten)
      | 3, .bytes chunks => some (.bignum true chunks.flatten)
      | _, content => content? content
  | item => some (.plain item)

/-- The text of some chunks, each of which has to be a text by itself. -/
def chunksText? (chunks : List (List UInt8)) : Option String :=
  (chunks.mapM utf8Text?).map String.join

/-- A field: `none` if the item does not fit it, `some none` if the item leaves it empty. -/
abbrev Field (α : Type) := Option (Option α)

/-- Whether an item leaves a field empty. -/
def isEmpty : Item → Bool
  | .null | .undefined => true
  | _ => false

/-- The field that a text fits. -/
def textField (item : Item) : Field String :=
  match content? item with
  | some (.plain (.text chunks)) => (chunksText? chunks).map some
  | some (.plain item) => if isEmpty item then some none else none
  | _ => none

/-- The field that a number up to `bound` fits. -/
def numberField (bound : Nat) (item : Item) : Field Nat :=
  let bounded (value : Nat) : Field Nat := if value ≤ bound then some (some value) else none
  match content? item with
  | some (.plain (.unsigned value)) => bounded value
  | some (.plain (.simple value)) => bounded value
  | some (.plain item) => if isEmpty item then some none else none
  | some (.bignum false bytes) => bounded (bigEndian bytes)
  | _ => none

/-- The bytes that an array of numbers gives, after those in `done`, which has the last one first.
An element that is null gives zero. -/
def elementBytes (done : List UInt8) : List Item → Option (List UInt8)
  | [] => some done.reverse
  | item :: rest =>
    match numberField 255 item with
    | some value => elementBytes ((value.getD 0).toUInt8 :: done) rest
    | none => none

/-- The field that bytes fit. -/
def bytesField (item : Item) : Field (List UInt8) :=
  match content? item with
  | some (.plain (.bytes chunks)) => some (some chunks.flatten)
  | some (.plain (.array items)) => (elementBytes [] items).map some
  | some (.plain item) => if isEmpty item then some none else none
  | some (.bignum _ bytes) => some (some bytes)
  | none => none

/-- What the key of an entry names. -/
inductive Key where
  | number (value : Nat)
  /-- A key that no field has. -/
  | unknown
  deriving DecidableEq, Repr

/-- The key that an item gives; none if it cannot be a key. -/
def keyOf? : Item → Option Key
  | .unsigned value => some (.number value)
  | .negative value => if value < Nat.pow 2 63 then some .unknown else none
  | .text chunks =>
    match chunksText? chunks with
    | none => none
    | some "1" => some (.number 1)
    | some "2" => some (.number 2)
    | some "3" => some (.number 3)
    | some _ => some .unknown
  | _ => none

/-- The entries of a map by their keys; none if the item is no map or one of its keys is none. Null
stands for the map without entries. -/
def entries? (item : Item) : Option (List (Key × Item)) :=
  match content? item with
  | some (.plain (.map entries)) =>
    entries.mapM fun (key, value) => (keyOf? key).map (·, value)
  | some (.plain item) => if isEmpty item then some [] else none
  | _ => none

/-- The field of the first entry with a key. -/
def fieldOf {α : Type} (read : Item → Field α) (key : Nat) (entries : List (Key × Item)) :
    Field α :=
  match entries.lookup (.number key) with
  | none => some none
  | some item => read item

/-- What a cluster file holds. -/
structure Fields where
  magic : String
  version : Nat
  code : List UInt8
  deriving DecidableEq, Repr

/-- The largest version number that fits its field. -/
def maxVersion : Nat := Nat.pow 2 64 - 1

/-- Reads the fields of a cluster file. -/
def readFields (data : List UInt8) : Option Fields := do
  let item ← decode data
  let entries ← entries? item
  let magic ← fieldOf textField 1 entries
  let version ← fieldOf (numberField maxVersion) 2 entries
  let code ← fieldOf bytesField 3 entries
  return ⟨magic.getD "", version.getD 0, code.getD []⟩

/-- Reads the magic text alone, whatever the other entries hold. -/
def readMagic (data : List UInt8) : Option String := do
  let item ← decode data
  let entries ← entries? item
  let magic ← fieldOf textField 1 entries
  return magic.getD ""

/-- Whether some bytes occur in others. -/
def occursIn (part : List UInt8) : List UInt8 → Bool
  | [] => part.isEmpty
  | bytes@(_ :: rest) => part.isPrefixOf bytes || occursIn part rest

/-- Whether data is a cluster file, by a look at its beginning and its magic text. -/
def isClusterFile (data : List UInt8) : Bool :=
  occursIn (utf8Bytes clusterMagic) (data.take 16) && readMagic data == some clusterMagic

/-- Why data is no cluster file. -/
inductive Problem where
  /-- It is not the data item that a cluster file is. -/
  | undecodable
  | badMagic (magic : String)
  | badVersion (version : Nat)
  | tooLarge (size : Nat)
  deriving DecidableEq, Repr

/-- A problem as a failure. -/
def Problem.failure : Problem → Failure
  | undecodable => .context "undecodable data" (.cause .badClusterFile)
  | badMagic magic => .context ("bad magic " ++ quote magic) (.cause .badClusterFile)
  | badVersion version =>
    .context ("unsupported version " ++ toString version) (.cause .badClusterFile)
  | tooLarge size => .context (toString size ++ " bytes") (.cause .clusterTooLarge)

/-- The cluster in a cluster file. -/
def toCluster (data : List UInt8) : Except Problem Cluster :=
  match readFields data with
  | none => .error .undecodable
  | some fields =>
    if fields.magic ≠ clusterMagic then .error (.badMagic fields.magic)
    else if fields.version ≠ clusterVersion then .error (.badVersion fields.version)
    else if maxClusterSize < fields.code.length then .error (.tooLarge fields.code.length)
    else .ok (.ofCode fields.code.toArray)

end Image

end Octet
