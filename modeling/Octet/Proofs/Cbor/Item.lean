import Mathlib.Algebra.GroupWithZero.Nat
import Mathlib.Tactic.Common
import Octet.Cbor.Item

/-! # Items that are read back

What is written with the shortest heads is read back as the item that was written,
whatever follows it. The argument of a head takes one of five forms, by its size;
the form does not bear on what is read. A map of items that are read back is read
back itself.
-/

namespace Octet.Cbor

/-! ### Numbers -/

theorem length_bigEndianBytes (count value : Nat) :
    (bigEndianBytes count value).length = count := by
  simp [bigEndianBytes]

theorem bigEndianBytes_succ (count value : Nat) :
    bigEndianBytes (count + 1) value =
      bigEndianBytes count (value / 256) ++ [(value % 256).toUInt8] := by
  unfold bigEndianBytes
  rw [List.range_succ, List.map_append]
  congr 1
  · apply List.map_congr_left
    intro place hplace
    have hlt : place < count := List.mem_range.mp hplace
    have hpower : Nat.pow 256 (count + 1 - 1 - place) = 256 * Nat.pow 256 (count - 1 - place) := by
      have hexponent : count + 1 - 1 - place = (count - 1 - place) + 1 := by omega
      rw [hexponent]
      exact Nat.pow_succ'
    rw [hpower, ← Nat.div_div_eq_div_mul]
  · simp

theorem bigEndian_append_singleton (bytes : List UInt8) (byte : UInt8) :
    bigEndian (bytes ++ [byte]) = bigEndian bytes * 256 + byte.toNat := by
  simp [bigEndian]

/-- A number that fits is read back from its bytes. -/
theorem bigEndian_bigEndianBytes {count value : Nat} (hvalue : value < 256 ^ count) :
    bigEndian (bigEndianBytes count value) = value := by
  induction count generalizing value with
  | zero =>
      rw [Nat.pow_zero] at hvalue
      obtain rfl : value = 0 := by omega
      rfl
  | succ count ih =>
      have hrest : value / 256 < 256 ^ count := by
        rw [Nat.pow_succ] at hvalue
        omega
      rw [bigEndianBytes_succ, bigEndian_append_singleton, ih hrest]
      have hlast : (value % 256).toUInt8.toNat = value % 256 := by simp
      omega

theorem splitBytes?_append (taken rest : List UInt8) :
    splitBytes? taken.length (taken ++ rest) = some (taken, rest) := by
  simp [splitBytes?]

/-! ### Heads -/

/-- The first byte of a head tells its major type and how the argument is written. -/
theorem ofByte_first (major : Major) {info : Nat} (hinfo : info < 32) :
    Major.ofByte (major.number * 32 + info).toUInt8 = major ∧
      (major.number * 32 + info).toUInt8.toNat % 32 = info := by
  have hnumber : major.number < 8 := by cases major <;> decide
  have hbyte : (major.number * 32 + info).toUInt8.toNat = major.number * 32 + info := by
    have : (major.number * 32 + info).toUInt8.toNat = (major.number * 32 + info) % 256 := by simp
    omega
  have hhigh : (major.number * 32 + info) / 32 = major.number := by omega
  refine ⟨?_, by omega⟩
  unfold Major.ofByte
  rw [hbyte, hhigh]
  cases major <;> rfl

/-- An argument of several bytes is read back. -/
theorem readArgument_bigEndianBytes (major : Major) (info : Nat) {count value : Nat}
    (hvalue : value < 256 ^ count) (rest : List UInt8) :
    readArgument major info count (bigEndianBytes count value ++ rest) =
      some (⟨major, info, some value⟩, rest) := by
  have hsplit := splitBytes?_append (bigEndianBytes count value) rest
  rw [length_bigEndianBytes] at hsplit
  simp only [readArgument, hsplit, bigEndian_bigEndianBytes hvalue]

theorem readHead_of_short (major : Major) {info : Nat} (hinfo : info < 24) (rest : List UInt8) :
    readHead ((major.number * 32 + info).toUInt8 :: rest) =
      some (⟨major, info, some info⟩, rest) := by
  obtain ⟨hmajor, hlow⟩ := ofByte_first major (show info < 32 by omega)
  simp only [readHead, hmajor, hlow, hinfo, ↓reduceIte]

/-- The ways to write an argument behind the first byte, and the number of bytes that they take. -/
def longForms : List (Nat × Nat) := [(24, 1), (25, 2), (26, 4), (27, 8)]

theorem readHead_of_long {major : Major} (hspecial : major ≠ .special) {info count : Nat}
    (hform : (info, count) ∈ longForms) (rest : List UInt8) :
    readHead ((major.number * 32 + info).toUInt8 :: rest) =
      readArgument major info count rest := by
  simp only [longForms, List.mem_cons, Prod.mk.injEq, List.not_mem_nil, or_false] at hform
  obtain ⟨hmajor, hlow⟩ := ofByte_first major (show info < 32 by omega)
  simp only [readHead, hmajor, hlow]
  rcases hform with ⟨rfl, rfl⟩ | ⟨rfl, rfl⟩ | ⟨rfl, rfl⟩ | ⟨rfl, rfl⟩
  · -- a simple value alone can be refused in this form
    simp only [hspecial, false_and, ↓reduceIte, Nat.lt_irrefl]
    split <;> simp_all
  all_goals rfl

/-- A head is read back, in whichever form its argument was written. -/
theorem exists_readHead_encodeHead {major : Major} (hspecial : major ≠ .special) {argument : Nat}
    (hargument : argument < 2 ^ 64) (rest : List UInt8) :
    ∃ info, readHead (encodeHead major argument ++ rest) =
      some (⟨major, info, some argument⟩, rest) := by
  have hlong {info count : Nat} (hform : (info, count) ∈ longForms)
      (hvalue : argument < 256 ^ count) :
      ∃ info', readHead ((major.number * 32 + info).toUInt8 :: bigEndianBytes count argument
        ++ rest) = some (⟨major, info', some argument⟩, rest) := by
    refine ⟨info, ?_⟩
    rw [List.cons_append, readHead_of_long hspecial hform, readArgument_bigEndianBytes _ _ hvalue]
  unfold encodeHead
  split
  next hshort => exact ⟨argument, readHead_of_short major hshort rest⟩
  split
  next hone => exact hlong (by decide) hone
  split
  next htwo => exact hlong (by decide) htwo
  split
  next hfour => exact hlong (by decide) hfour
  next => exact hlong (by decide) hargument

/-! ### Items -/

/-- Some bytes are read as an item, whatever follows them and wherever they stand. -/
def Encodes (bytes : List UInt8) (item : Item) : Prop :=
  ∀ fuel depth inTag rest, readItem (fuel + 1) depth inTag (bytes ++ rest) = some (item, rest)

theorem Encodes.ne_nil {bytes : List UInt8} {item : Item} (hencodes : Encodes bytes item) :
    bytes ≠ [] := by
  rintro rfl
  have hread := hencodes 0 0 false []
  simp [readItem, readHead] at hread

theorem encodes_unsigned {value : Nat} (hvalue : value < 2 ^ 64) :
    Encodes (encodeUnsigned value) (.unsigned value) := by
  intro fuel depth inTag rest
  obtain ⟨info, hhead⟩ := exists_readHead_encodeHead (show Major.unsigned ≠ .special by decide)
    hvalue rest
  simp only [readItem, encodeUnsigned, hhead, Option.getD_some]

/-- A string is read back by its length. -/
theorem readString_of_length (major : Major) (info fuel : Nat) (bytes rest : List UInt8) :
    readString ⟨major, info, some bytes.length⟩ fuel (bytes ++ rest) = some ([bytes], rest) := by
  simp only [readString, splitBytes?_append]

theorem encodes_text {bytes : List UInt8} (hlength : bytes.length < 2 ^ 64) :
    Encodes (encodeText bytes) (.text [bytes]) := by
  intro fuel depth inTag rest
  obtain ⟨info, hhead⟩ := exists_readHead_encodeHead (show Major.text ≠ .special by decide)
    hlength (bytes ++ rest)
  simp only [readItem, encodeText, List.append_assoc, hhead, readString_of_length, Option.map_some]

theorem encodes_bytes {bytes : List UInt8} (hlength : bytes.length < 2 ^ 64) :
    Encodes (encodeBytes bytes) (.bytes [bytes]) := by
  intro fuel depth inTag rest
  obtain ⟨info, hhead⟩ := exists_readHead_encodeHead (show Major.bytes ≠ .special by decide)
    hlength (bytes ++ rest)
  simp only [readItem, encodeBytes, List.append_assoc, hhead, readString_of_length,
    Option.map_some]

theorem encodes_null : Encodes encodeNull .null := by
  intro fuel depth inTag rest
  have hhead : readHead (encodeNull ++ rest) = some (⟨.special, 22, some 22⟩, rest) :=
    readHead_of_short .special (show 22 < 24 by decide) rest
  simp only [readItem, hhead, specialItem]

/-! ### Maps -/

/-- Items that are read back one by one are read back as a sequence. -/
theorem readCounted_of_encodes {parts : List (List UInt8 × Item)}
    (hparts : ∀ part ∈ parts, Encodes part.1 part.2) (fuel depth : Nat) (done : List Item)
    (rest : List UInt8) :
    readCounted (fuel + parts.length + 1) depth parts.length done
      ((parts.map Prod.fst).flatten ++ rest) =
        some (done.reverse ++ parts.map Prod.snd, rest) := by
  induction parts generalizing done with
  | nil => simp [readCounted]
  | cons part parts ih =>
      obtain ⟨hfirst, hparts⟩ := List.forall_mem_cons.mp hparts
      have hitem := hfirst (fuel + parts.length) depth false
        ((parts.map Prod.fst).flatten ++ rest)
      simp only [List.length_cons, List.map_cons, List.flatten_cons, List.append_assoc, ←
        Nat.add_assoc, readCounted, hitem, ih hparts, List.reverse_cons]
      simp

/-- The bytes of the keys and values of some entries, with the items that they encode, in turn. -/
def partsOf (entries : List ((List UInt8 × Item) × (List UInt8 × Item))) :
    List (List UInt8 × Item) :=
  entries.flatMap fun entry => [entry.1, entry.2]

theorem length_partsOf (entries : List ((List UInt8 × Item) × (List UInt8 × Item))) :
    (partsOf entries).length = 2 * entries.length := by
  induction entries with
  | nil => rfl
  | cons entry entries ih =>
      rw [partsOf, List.flatMap_cons, ← partsOf]
      simp only [List.length_append, List.length_cons, List.length_nil, ih]
      omega

/-- The keys and values of a map are paired as they were written. -/
theorem pairEntries_partsOf (done : List (Item × Item))
    (entries : List ((List UInt8 × Item) × (List UInt8 × Item))) :
    pairEntries done ((partsOf entries).map Prod.snd) =
      done.reverse ++ entries.map fun entry => (entry.1.2, entry.2.2) := by
  induction entries generalizing done with
  | nil => simp [partsOf, pairEntries]
  | cons entry entries ih =>
      have hnext := ih ((entry.1.2, entry.2.2) :: done)
      simp only [partsOf] at hnext
      simp [partsOf, pairEntries, hnext]

/-- Every item takes a byte at least. -/
theorem length_le_of_encodes {parts : List (List UInt8 × Item)}
    (hparts : ∀ part ∈ parts, Encodes part.1 part.2) :
    parts.length ≤ (parts.map Prod.fst).flatten.length := by
  induction parts with
  | nil => exact Nat.zero_le _
  | cons part parts ih =>
      obtain ⟨hfirst, hparts⟩ := List.forall_mem_cons.mp hparts
      have hpos := List.length_pos_iff.mpr hfirst.ne_nil
      have hrest := ih hparts
      simp only [List.map_cons, List.flatten_cons, List.length_append, List.length_cons]
      omega

/-- A map is read back when its keys and values are. -/
theorem decode_of_encodes (entries : List ((List UInt8 × Item) × (List UInt8 × Item)))
    (hcount : entries.length ≤ maxElements)
    (hparts : ∀ part ∈ partsOf entries, Encodes part.1 part.2) :
    decode (encodeHead .map entries.length ++ ((partsOf entries).map Prod.fst).flatten) =
      some (.map (entries.map fun entry => (entry.1.2, entry.2.2))) := by
  have hbelow : entries.length < 2 ^ 64 := by
    unfold maxElements at hcount
    omega
  obtain ⟨info, hhead⟩ := exists_readHead_encodeHead (show Major.map ≠ .special by decide)
    hbelow ((partsOf entries).map Prod.fst).flatten
  generalize hbytes : encodeHead .map entries.length ++ ((partsOf entries).map Prod.fst).flatten =
    bytes at hhead ⊢
  -- the length of the bytes leaves enough fuel for an item, its elements and each of these
  have henough : (partsOf entries).length ≤ bytes.length := by
    rw [← hbytes, List.length_append]
    exact Nat.le_add_left_of_le (length_le_of_encodes hparts)
  obtain ⟨fuel, hfuel⟩ : ∃ fuel, 3 * bytes.length + 4 =
      fuel + (partsOf entries).length + 1 + 1 + 1 :=
    ⟨3 * bytes.length + 1 - (partsOf entries).length, by omega⟩
  have hitems := readCounted_of_encodes hparts fuel 1 [] []
  rw [List.append_nil, List.reverse_nil, List.nil_append] at hitems
  have hpaired := pairEntries_partsOf [] entries
  rw [List.reverse_nil, List.nil_append] at hpaired
  have heven : ((partsOf entries).map Prod.snd).length % 2 = 0 := by
    rw [List.length_map, length_partsOf]
    omega
  have hdepth : ¬ maxDepth < 0 + 1 := by decide
  have hmany : ¬ maxElements < entries.length := by omega
  simp only [decode, hfuel, readItem, hhead, readElements, hdepth, hmany, ↓reduceIte,
    ← length_partsOf, hitems, heven, hpaired]

end Octet.Cbor
