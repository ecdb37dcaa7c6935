import SwiftManifest.Datum.Basic

/-! Tables under construction. Keys and headers may come back to a table, but none may be defined
twice, and what a header has declared is closed to dotted keys. -/

namespace SwiftManifest.Toml

/-- How a table came to be: by its own header, by the header of a table inside it, or by a key
with dots. -/
inductive Origin where
  | declared | implied | dotted
  deriving DecidableEq, Repr

/-- An array of tables is built at its `current` element; the `earlier` ones are complete. -/
inductive Item where
  | value (content : Datum)
  | table (origin : Origin) (entries : List (String × Item))
  | tables (earlier : List Datum) (current : List (String × Item))
  deriving Repr

abbrev Entries := List (String × Item)

structure KeyPath where
  parents : List String
  name : String
  deriving DecidableEq, Repr

namespace Item

mutual
def toDatum : Item → Datum
  | .value content => content
  | .table _ entries => .object (toMembers entries)
  | .tables earlier current => .array (earlier ++ [.object (toMembers current)])

def toMembers : List (String × Item) → List (String × Datum)
  | [] => []
  | (name, item) :: entries => (name, toDatum item) :: toMembers entries
end

end Item

namespace Entries

/-- Changes the item of a name in its place, or adds one at the end. -/
def alter (name : String) (change : Option Item → Option Item) : Entries → Option Entries
  | [] => (change none).map fun item => [(name, item)]
  | (other, item) :: entries =>
    if other = name then (change (some item)).map fun item => (other, item) :: entries
    else (alter name change entries).map ((other, item) :: ·)

/-- Changes the table at the end of a path, making the tables on the way that are missing. -/
def descend (dotted : Bool) (change : Origin → Entries → Option Entries) :
    List String → Origin → Entries → Option Entries
  | [], origin, entries => change origin entries
  | name :: path, _, entries =>
    alter name (fun
      | none =>
        let origin := if dotted then .dotted else .implied
        (descend dotted change path origin []).map (.table origin ·)
      | some (.value _) => none
      | some (.table origin inner) =>
        if dotted ∧ origin = .declared then none
        else (descend dotted change path origin inner).map (.table origin ·)
      | some (.tables earlier current) =>
        (descend dotted change path .declared current).map (.tables earlier ·)) entries

/-- Sets a key that has no value yet. A key with dots ends in a table made by such keys. -/
def insert (key : KeyPath) (content : Datum) (origin : Origin) (entries : Entries) :
    Option Entries :=
  descend true (fun origin entries =>
    if key.parents ≠ [] ∧ origin ≠ .dotted then none
    else
      alter key.name (fun
        | none => some (.value content)
        | some _ => none) entries) key.parents origin entries

/-- The effect of a table's header. -/
def declare (key : KeyPath) (entries : Entries) : Option Entries :=
  descend false (fun _ entries =>
    alter key.name (fun
      | none => some (.table .declared [])
      | some (.table .implied inner) => some (.table .declared inner)
      | some _ => none) entries) key.parents .declared entries

/-- The effect of the header of an element in an array of tables. -/
def extend (key : KeyPath) (entries : Entries) : Option Entries :=
  descend false (fun _ entries =>
    alter key.name (fun
      | none => some (.tables [] [])
      | some (.tables earlier current) =>
        some (.tables (earlier ++ [.object (Item.toMembers current)]) [])
      | some _ => none) entries) key.parents .declared entries

/-- Sets a key in the table of the last header. -/
def insertAt (header : List String) (key : KeyPath) (content : Datum) (entries : Entries) :
    Option Entries :=
  descend false (insert key content) header .declared entries

end Entries

end SwiftManifest.Toml
