import Octet.Toml.Table

/-! # Configuration documents

The expressions of a text entered one after another into one table of tables. A
key may be defined once, but a table that exists only because a key led through
it may still be defined by itself. An entry in braces has to fit both the document
and the table that its braces make up. The keys are kept in the order in which
they stand in the text.
-/

namespace Octet.Toml

/-- A document that is being read. -/
structure Document where
  root : Table
  /-- The tables that exist only because a key led through them. -/
  implicit : List Key
  /-- The keys whose last value was an array. -/
  arrays : List Key
  /-- The table into which entries go. -/
  context : Key
  /-- All keys so far, the last one first. -/
  keys : List Key
  /-- The tables in braces that are being read, the innermost one first, with their keys. -/
  braces : List (Key × Table)

namespace Document

/-- The document without expressions. -/
def empty : Document := ⟨[], [], [], [], [], []⟩

/-- Notes that a table exists only because a key leads through it. -/
def markImplicit (document : Document) (key : Key) : Document :=
  { document with implicit := key :: document.implicit.filter (· != key) }

/-- Notes that a table is defined by itself. -/
def markExplicit (document : Document) (key : Key) : Document :=
  { document with implicit := document.implicit.filter (· != key) }

/-- Notes whether the value under a name is an array. The empty name stands for the table into which
entries go, unless that is the whole document. -/
def noteKind (document : Document) (name : String) (isArray : Bool) : Document :=
  let key :=
    if name ≠ "" || document.context.isEmpty then document.context ++ [name]
    else document.context
  let others := document.arrays.filter (· != key)
  { document with arrays := if isArray then key :: others else others }

/-- Puts a node under a name into the table that a key leads to. Tables in braces keep what they
have shared there. -/
def place (document : Document) (key : Key) (name : String) (node : Node) : Document :=
  let root := document.root
  let braces := document.braces.map fun (base, table) =>
    (base, table.detach root base ((key ++ [name]).drop base.length))
  { document with root := root.putAt name (node.unshared root key name) key, braces }

/-- A node that was put into the document, as the braces around it see it. -/
def placed : Node → Node
  | .table _ => .shared
  | node => node

/-- Defines a name in the table into which entries go, and gives the node as the braces around it
see it. What was there only because a key led through it stays as it is, unless the name is noted
as that of an array. -/
def define (document : Document) (name : String) (node : Node) : Option (Document × Node) :=
  let key := document.context ++ [name]
  let changed := document.place document.context name node
  match document.root.at? document.context with
  | none => none
  | some table =>
    if (table.lookup name).isNone then some (changed, placed node)
    else if !document.implicit.contains key then none
    else if document.arrays.contains key then some (changed.markExplicit key, placed node)
    else some (document.markExplicit key, node)

/-- Goes on from the table at `done` along a key, makes the tables that are missing on the way, and
lets entries go into the last one. -/
def descend (document : Document) (done : Key) : Key → Option Document
  | [] => some { document with context := done }
  | name :: rest =>
    let key := done ++ [name]
    match (document.root.at? done).map fun table : Table => table.lookup name with
    | some none =>
      descend (Document.markImplicit
        { document with root := document.root.putAt name (.table []) done } key) key rest
    | some (some (.table _)) | some (some (.tables _)) => descend document key rest
    | _ => none

/-- Lets entries go into the table with a key, which is defined by that; `inArray` tells that it is
a further table of an array. -/
def openTable (document : Document) (key : Key) (inArray : Bool) : Option Document :=
  let name := key.getLastD ""
  match document.descend [] key.dropLast with
  | none => none
  | some document =>
    let opened :=
      if inArray then
        match document.root.node? document.context name with
        | none | some (.tables _) =>
          some { document with root := document.root.putAt name (.tables []) document.context }
        | some _ => none
      else (document.define name (.table [])).map Prod.fst
    opened.map fun document => { document with context := document.context ++ [name] }

/-- Lets entries go into the tables that the parts of a key lead to, one after another. -/
def openSteps (document : Document) : Key → Option Document
  | [] => some document
  | name :: rest =>
    let key := document.context ++ [name]
    match (document.markImplicit key).openTable key false with
    | some document => openSteps document rest
    | none => none

/-- Lets entries go where the value of a key goes, and notes the key. -/
def beginEntry (document : Document) (key : Key) : Option Document :=
  (document.openSteps key.dropLast).map fun document =>
    { document with keys := (document.context ++ [key.getLastD ""]) :: document.keys }

/-- Defines a key as the node of its value, and gives the node as the braces around it see it. -/
def endEntry (document : Document) (key : Key) (value : Value) (node : Node) :
    Option (Document × Node) :=
  let name := key.getLastD ""
  (document.define name node).map fun (document, node) =>
    (document.noteKind name (value matches .array _), node)

/-- Notes an entry in the innermost braces. -/
def keepEntry (document : Document) (key : Key) (node : Node) : Option Document :=
  let name := key.getLastD ""
  match document.braces with
  | [] => some document
  | (base, table) :: outer =>
    match table.keep document.root base name node key.dropLast with
    | none => none
    | some (.apart table) => some { document with braces := (base, table) :: outer }
    | some .shared => some (document.place (base ++ key.dropLast) name node)

mutual

/-- Enters what a value has inside, where the value stands under a name or in an array there, and
gives the node that it makes. -/
def enterValue (document : Document) (name : String) (inArray : Bool) :
    Value → Option (Document × Node)
  | .scalar value => some (document, .scalar value)
  | .array elements =>
    (enterElements (document.noteKind name true) name elements).map (·, .array)
  | .table entries =>
    let outer := document.context
    let key := outer ++ [name]
    match (document.markImplicit key).openTable key inArray with
    | none => none
    | some document =>
      match enterEntries { document with braces := (key, []) :: document.braces } key entries with
      | none => none
      | some document =>
        some ({ document with context := outer, braces := document.braces.tail },
          .table ((document.braces.head?.map Prod.snd).getD []))

/-- Enters what the elements of an array have inside. -/
def enterElements (document : Document) (name : String) : List Value → Option Document
  | [] => some document
  | element :: rest =>
    match enterValue document name true element with
    | some (document, _) => enterElements document name rest
    | none => none

/-- Enters the entries that stand in braces, in the table with the key `context`. -/
def enterEntries (document : Document) (context : Key) : List (Key × Value) → Option Document
  | [] => some document
  | (key, value) :: rest =>
    match beginEntry document key with
    | none => none
    | some document =>
      match enterValue document (key.getLastD "") false value with
      | none => none
      | some (document, node) =>
        match (document.endEntry key value node).bind fun (document, node) =>
            document.keepEntry key node with
        | none => none
        | some document => enterEntries { document with context } context rest

end

/-- Enters an entry that does not stand in braces. -/
def enterEntry (document : Document) (key : Key) (value : Value) : Option Document := do
  let (entered, node) ← (← document.beginEntry key).enterValue (key.getLastD "") false value
  let (entered, _) ← entered.endEntry key value node
  return { entered with context := document.context }

/-- Enters an expression. -/
def enter (document : Document) : Expression → Option Document
  | .table key =>
    (document.openTable key false).map fun document =>
      { document.noteKind "" false with keys := key :: document.keys }
  | .tables key =>
    (document.openTable key true).map fun document =>
      { document.noteKind "" false with keys := key :: document.keys }
  | .entry key value => document.enterEntry key value

/-- The document of a text in bytes. -/
def ofBytes (bytes : List UInt8) : Option Document :=
  match expressionsOf bytes with
  | none => none
  | some expressions =>
    expressions.foldlM (fun document expression => document.enter expression) empty

end Document

end Octet.Toml
