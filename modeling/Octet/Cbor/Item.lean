/-! # Binary data items

Reading and writing of data items in CBOR. A data item starts with a head: its
major type and an argument, which is a number, a length or a count. Strings,
arrays and maps may leave their length open and end with a break byte. Reading
accepts every well-formed item within limits on nesting and on the number of
elements; writing uses the shortest heads.
-/

namespace Octet.Cbor

/-- The major types. -/
inductive Major where
  | unsigned
  | negative
  | bytes
  | text
  | array
  | map
  | tag
  /-- Booleans, null, floating-point numbers and other simple values. -/
  | special
  deriving DecidableEq, Repr

/-- The major type in the three high bits of a head. -/
def Major.ofByte (byte : UInt8) : Major :=
  match byte.toNat / 32 with
  | 0 => unsigned
  | 1 => negative
  | 2 => bytes
  | 3 => text
  | 4 => array
  | 5 => map
  | 6 => tag
  | _ => special

/-- The number of a major type. -/
def Major.number : Major → Nat
  | unsigned => 0
  | negative => 1
  | bytes => 2
  | text => 3
  | array => 4
  | map => 5
  | tag => 6
  | special => 7

/-- A data item. -/
inductive Item where
  | unsigned (value : Nat)
  /-- The number `-1 - value`. -/
  | negative (value : Nat)
  /-- A byte string in the chunks it was written in. -/
  | bytes (chunks : List (List UInt8))
  /-- A text in the chunks it was written in. -/
  | text (chunks : List (List UInt8))
  | array (items : List Item)
  | map (entries : List (Item × Item))
  | tag (number : Nat) (content : Item)
  | boolean (value : Bool)
  | null
  | undefined
  /-- A simple value without a meaning of its own. -/
  | simple (value : Nat)
  /-- A floating-point number, whose value does not matter here. -/
  | float

/-- How deep arrays and maps may be nested. -/
def maxDepth : Nat := 32

/-- How many elements an array, or entries a map, may have. -/
def maxElements : Nat := 131072

/-- The byte that ends an item of open length. -/
def breakByte : UInt8 := 0xFF

/-! ### Reading -/

/-- The head of an item. -/
structure Head where
  major : Major
  /-- The low five bits of the first byte, which tell how the argument is written. -/
  info : Nat
  /-- The argument; none if the length is left open. -/
  argument : Option Nat
  deriving DecidableEq, Repr

/-- The number that some bytes make, the most significant one first. -/
def bigEndian (bytes : List UInt8) : Nat :=
  bytes.foldl (fun value byte => value * 256 + byte.toNat) 0

/-- The first `count` bytes and those after them, if there are as many. -/
def splitBytes? (count : Nat) (bytes : List UInt8) : Option (List UInt8 × List UInt8) :=
  let taken := bytes.take count
  if taken.length = count then some (taken, bytes.drop count) else none

/-- An argument of `count` bytes. -/
def readArgument (major : Major) (info count : Nat) (bytes : List UInt8) :
    Option (Head × List UInt8) :=
  match splitBytes? count bytes with
  | some (digits, rest) => some (⟨major, info, some (bigEndian digits)⟩, rest)
  | none => none

/-- Reads a head. The length of strings, arrays and maps alone can be left open, and a simple value
in a byte of its own is not one that fits in the head. -/
def readHead : List UInt8 → Option (Head × List UInt8)
  | [] => none
  | first :: rest =>
    let major := Major.ofByte first
    let info := first.toNat % 32
    if info < 24 then some (⟨major, info, some info⟩, rest)
    else
      match info with
      | 24 =>
        match readArgument major info 1 rest with
        | some (head, rest) =>
          if major = .special ∧ head.argument.getD 0 < 32 then none else some (head, rest)
        | none => none
      | 25 => readArgument major info 2 rest
      | 26 => readArgument major info 4 rest
      | 27 => readArgument major info 8 rest
      | 31 =>
        match major with
        | .bytes | .text | .array | .map => some (⟨major, info, none⟩, rest)
        | _ => none
      | _ => none

/-- The item of a head with major type `special`. -/
def specialItem (info argument : Nat) : Item :=
  match info with
  | 20 => .boolean false
  | 21 => .boolean true
  | 22 => .null
  | 23 => .undefined
  | 25 | 26 | 27 => .float
  | _ => .simple argument

/-- Reads the chunks of a string of open length, after those in `done`, which has the last one
first. Every chunk has a length and the type of the string. -/
def readChunks (major : Major) (done : List (List UInt8)) :
    Nat → List UInt8 → Option (List (List UInt8) × List UInt8)
  | 0, _ => none
  | fuel + 1, bytes =>
    match bytes with
    | [] => none
    | first :: rest =>
      if first = breakByte then some (done.reverse, rest)
      else
        match readHead bytes with
        | some (⟨chunkMajor, _, some length⟩, rest) =>
          if chunkMajor ≠ major then none
          else
            match splitBytes? length rest with
            | some (chunk, rest) => readChunks major (chunk :: done) fuel rest
            | none => none
        | _ => none

/-- Reads the chunks of a string whose head has been read. -/
def readString (head : Head) (fuel : Nat) (bytes : List UInt8) :
    Option (List (List UInt8) × List UInt8) :=
  match head.argument with
  | none => readChunks head.major [] fuel bytes
  | some length =>
    match splitBytes? length bytes with
    | some (chunk, rest) => some ([chunk], rest)
    | none => none

/-- The entries that keys and values in turn make, after those in `done`, which has the last one
first. -/
def pairEntries (done : List (Item × Item)) : List Item → List (Item × Item)
  | key :: value :: rest => pairEntries ((key, value) :: done) rest
  | _ => done.reverse

mutual

/-- Reads an item inside `depth` arrays and maps. `inTag` tells whether it is the content of a tag;
a tag inside a tag counts as a level of nesting. -/
def readItem : Nat → Nat → Bool → List UInt8 → Option (Item × List UInt8)
  | 0, _, _, _ => none
  | fuel + 1, depth, inTag, bytes =>
    match readHead bytes with
    | none => none
    | some (head, rest) =>
      match head.major with
      | .unsigned => some (.unsigned (head.argument.getD 0), rest)
      | .negative => some (.negative (head.argument.getD 0), rest)
      | .bytes => (readString head fuel rest).map fun (chunks, rest) => (.bytes chunks, rest)
      | .text => (readString head fuel rest).map fun (chunks, rest) => (.text chunks, rest)
      | .special => some (specialItem head.info (head.argument.getD 0), rest)
      | .tag =>
        let depth := if inTag then depth + 1 else depth
        if maxDepth < depth then none
        else
          match readItem fuel depth true rest with
          | some (content, rest) => some (.tag (head.argument.getD 0) content, rest)
          | none => none
      | .array =>
        if maxDepth < depth + 1 then none
        else
          match readElements fuel (depth + 1) 1 head.argument rest with
          | some (items, rest) => some (.array items, rest)
          | none => none
      | .map =>
        if maxDepth < depth + 1 then none
        else
          match readElements fuel (depth + 1) 2 head.argument rest with
          | some (items, rest) =>
            if items.length % 2 = 0 then some (.map (pairEntries [] items), rest) else none
          | none => none

/-- Reads the elements of an array or, with two items for each, of a map. -/
def readElements : Nat → Nat → Nat → Option Nat → List UInt8 → Option (List Item × List UInt8)
  | 0, _, _, _, _ => none
  | fuel + 1, depth, each, none, bytes => readToBreak fuel depth (each * maxElements) [] bytes
  | fuel + 1, depth, each, some count, bytes =>
    if maxElements < count then none else readCounted fuel depth (each * count) [] bytes

/-- Reads `count` items after those in `done`, which has the last one first. -/
def readCounted : Nat → Nat → Nat → List Item → List UInt8 → Option (List Item × List UInt8)
  | 0, _, _, _, _ => none
  | _ + 1, _, 0, done, bytes => some (done.reverse, bytes)
  | fuel + 1, depth, count + 1, done, bytes =>
    match readItem fuel depth false bytes with
    | some (item, rest) => readCounted fuel depth count (item :: done) rest
    | none => none

/-- Reads items up to a break byte after those in `done`, which has the last one first, and at most
`room` more. -/
def readToBreak : Nat → Nat → Nat → List Item → List UInt8 → Option (List Item × List UInt8)
  | 0, _, _, _, _ => none
  | fuel + 1, depth, room, done, bytes =>
    match bytes with
    | [] => none
    | first :: rest =>
      if first = breakByte then some (done.reverse, rest)
      else
        match room with
        | 0 => none
        | room + 1 =>
          match readItem fuel depth false bytes with
          | some (item, rest) => readToBreak fuel depth room (item :: done) rest
          | none => none

end

/-- Reads bytes that hold one item and nothing else. -/
def decode (bytes : List UInt8) : Option Item :=
  match readItem (3 * bytes.length + 4) 0 false bytes with
  | some (item, []) => some item
  | _ => none

/-! ### Writing -/

/-- The bytes of a number, `count` of them, the most significant one first. -/
def bigEndianBytes (count value : Nat) : List UInt8 :=
  (List.range count).map fun place => (value / Nat.pow 256 (count - 1 - place) % 256).toUInt8

/-- The shortest head with a major type and an argument below `2 ^ 64`. -/
def encodeHead (major : Major) (argument : Nat) : List UInt8 :=
  let first (info : Nat) : UInt8 := (major.number * 32 + info).toUInt8
  if argument < 24 then [first argument]
  else if argument < Nat.pow 2 8 then first 24 :: bigEndianBytes 1 argument
  else if argument < Nat.pow 2 16 then first 25 :: bigEndianBytes 2 argument
  else if argument < Nat.pow 2 32 then first 26 :: bigEndianBytes 4 argument
  else first 27 :: bigEndianBytes 8 argument

/-- A number. -/
def encodeUnsigned (value : Nat) : List UInt8 := encodeHead .unsigned value

/-- A text in one chunk. -/
def encodeText (bytes : List UInt8) : List UInt8 := encodeHead .text bytes.length ++ bytes

/-- A byte string in one chunk. -/
def encodeBytes (bytes : List UInt8) : List UInt8 := encodeHead .bytes bytes.length ++ bytes

/-- The value null. -/
def encodeNull : List UInt8 := [0xF6]

end Octet.Cbor
