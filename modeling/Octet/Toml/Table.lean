import Octet.Toml.Expression

/-! # Tables of a configuration document

A document is a table whose nodes may be tables again. What stands in braces is
kept a second time while it is read, as a table of its own. Where that table was
put into the document, both are one table from then on, and the second one says so
instead of repeating it.
-/

namespace Octet.Toml

/-- What a name stands for in a table. Of an array only the kind is kept, and of an array of tables
the last one, into which further entries go. -/
inductive Node where
  | scalar (value : Scalar)
  | array
  | table (entries : List (String × Node))
  | tables (last : List (String × Node))
  /-- The very table that the document has at the same place; not a node of the document itself. -/
  | shared

/-- Nodes by their names. -/
abbrev Table := List (String × Node)

namespace Table

/-- The table with another node under a name. -/
def put (table : Table) (name : String) (node : Node) : Table :=
  (name, node) :: table.filter (·.1 != name)

/-- The table that a key leads to. -/
def at? (table : Table) : Key → Option Table
  | [] => some table
  | name :: rest =>
    match table.lookup name with
    | some (.table inner) | some (.tables inner) => Table.at? inner rest
    | _ => none

/-- The node under a name in the table that a key leads to. -/
def node? (table : Table) (key : Key) (name : String) : Option Node :=
  (table.at? key).bind fun inner : Table => inner.lookup name

/-- The table with another node under a name in the table that a key leads to. -/
def putAt (table : Table) (name : String) (node : Node) : Key → Table
  | [] => table.put name node
  | step :: rest =>
    match table.lookup step with
    | some (.table inner) => table.put step (.table (Table.putAt inner name node rest))
    | some (.tables inner) => table.put step (.tables (Table.putAt inner name node rest))
    | _ => table

/-- Whether a key leads through tables only, and not through arrays of them. -/
def leadsThrough (table : Table) : Key → Bool
  | [] => true
  | name :: rest =>
    match table.lookup name with
    | some (.table inner) => Table.leadsThrough inner rest
    | _ => false

end Table

/-! ### Tables in braces -/

mutual

/-- A node under a name in the table at `here`, with what it shares with the document written
out. -/
def Node.unshared (document : Table) (here : Key) (name : String) : Node → Node
  | .shared => (document.node? here name).getD (.table [])
  | .table entries => .table (unsharedEntries document (here ++ [name]) entries)
  | node => node

/-- The entries of the table at `here`, with what they share with the document written out. -/
def unsharedEntries (document : Table) (here : Key) :
    List (String × Node) → List (String × Node)
  | [] => []
  | (name, node) :: rest =>
    (name, node.unshared document here name) :: unsharedEntries document here rest

end

/-- What became of an entry in braces. -/
inductive Kept where
  /-- It was put into the table of the braces. -/
  | apart (braces : Table)
  /-- Its table is one that the document shares. -/
  | shared

namespace Table

/-- Puts a node under a name into the table that steps lead to, in the table at `here` of some
braces. Missing tables are made; none if a step leads to anything else than a table. -/
def keep (braces document : Table) (here : Key) (name : String) (node : Node) :
    Key → Option Kept
  | [] => some (.apart (braces.put name node))
  | step :: rest =>
    let within (inner : Table) : Option Kept :=
      match Table.keep inner document (here ++ [step]) name node rest with
      | some (.apart inner) => some (.apart (braces.put step (.table inner)))
      | kept => kept
    match braces.lookup step with
    | none => within []
    | some (.table inner) => within inner
    | some .shared =>
      match document.at? (here ++ [step]) with
      | some inner => if inner.leadsThrough rest then some .shared else none
      | none => none
    | some _ => none

/-- The table at `here` of some braces after the document replaces what steps lead to: what it has
shared there is kept as it was. -/
def detach (braces document : Table) (here : Key) : Key → Table
  | [] => braces
  | [name] =>
    match braces.lookup name with
    | some node => braces.put name (node.unshared document here name)
    | none => braces
  | step :: rest =>
    match braces.lookup step with
    | some (.table inner) =>
      braces.put step (.table (Table.detach inner document (here ++ [step]) rest))
    | _ => braces

end Table

end Octet.Toml
