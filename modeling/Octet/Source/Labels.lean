import Octet.Source.Place
import Std.Data.HashMap

/-! # Labels of a program under construction

A label is defined once, at the program offset of what follows it. A use of a
label that is not yet defined is kept until the program is complete.
-/

namespace Octet

/-- Where a label is defined. -/
structure LabelSite where
  /-- Its place in the source. -/
  place : Place
  /-- The program offset it stands for. -/
  address : Nat
  deriving DecidableEq, Repr

/-- A use of a label before its definition. -/
structure LabelUse where
  name : String
  /-- Its place in the source. -/
  place : Place
  /-- The program offset of the two bytes to fill in. -/
  position : Nat
  deriving DecidableEq, Repr

/-- The labels defined so far, and the uses that wait for a definition, the last one first. -/
structure LabelTable where
  sites : Std.HashMap String LabelSite
  pending : List LabelUse

namespace LabelTable

/-- A table without labels. -/
def empty : LabelTable := ⟨∅, []⟩

/-- Where a label is defined, if it is. -/
def site? (table : LabelTable) (name : String) : Option LabelSite := table.sites[name]?

/-- Defines a label. A label that is defined already keeps its definition, which is returned. -/
def define (table : LabelTable) (name : String) (site : LabelSite) :
    Option LabelSite × LabelTable :=
  match table.site? name with
  | some previous => (some previous, table)
  | none =>
    let ⟨sites, pending⟩ := table
    (none, ⟨sites.insert name site, pending⟩)

/-- The address of a label that is used at `position`: the one it has, or zero until it is defined.
-/
def reference (table : LabelTable) (name : String) (place : Place) (position : Nat) :
    Nat × LabelTable :=
  match table.site? name with
  | some site => (site.address, table)
  | none =>
    let ⟨sites, pending⟩ := table
    (0, ⟨sites, ⟨name, place, position⟩ :: pending⟩)

end LabelTable

end Octet
