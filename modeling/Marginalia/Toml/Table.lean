import Marginalia.Toml.Item

/-!
# Building TOML tables

Where an assignment or a header may put something. A table is opened by one header at most. Dotted
keys go into tables that dotted keys have opened, and headers do not open those again. What stands
between braces is closed.
-/

namespace Marginalia.Toml

/-- Exchange what is there under a key, or add it at the end. -/
def alter (key : String) (f : Option Item → Option Item) : Members → Option Members
  | [] => (f none).map fun item ↦ [(key, item)]
  | (other, item) :: rest =>
    if key = other then (f (some item)).map fun item ↦ (other, item) :: rest
    else (alter key f rest).map fun rest ↦ (other, item) :: rest

/-- Exchange the members of the last of some tables. -/
def alterLast (f : Members → Option Members) : List Members → Option (List Members)
  | [] => none
  | [last] => (f last).map fun last ↦ [last]
  | first :: rest => (alterLast f rest).map fun rest ↦ first :: rest

/-- Change the members of the table at the end of a path, whose kind the change gets to know.
Tables that are missing on the way are opened. -/
def descend (dotted : Bool) (change : TableKind → Members → Option Members) :
    List String → TableKind → Members → Option Members
  | [], kind, members => change kind members
  | key :: path, _, members =>
    members |> alter key fun
      | none =>
        let kind := if dotted then TableKind.dotted else .passage
        (descend dotted change path kind []).map (.table kind)
      | some (.table .braces _) => none
      | some (.table kind inner) =>
        if dotted ∧ kind = .header then none
        else (descend dotted change path kind inner).map (.table kind)
      | some (.tables elements) =>
        (alterLast (descend dotted change path .header) elements).map .tables
      | some _ => none

/-- Put a new item into a table by a dotted key. -/
def assign (path : List String) (key : String) (item : Item) (kind : TableKind)
    (members : Members) : Option Members :=
  descend true (fun kind members ↦
    if (kind = .dotted) = (path = []) then none
    else alter key (fun old ↦ if old.isSome then none else some item) members) path kind members

/-- A table between braces. -/
def ofPairs (pairs : List (List String × String × Item)) : Option Item :=
  (pairs.foldlM (fun members (path, key, item) ↦ assign path key item .header members) []).map
    (.table .braces)

def openTable (path : List String) (key : String) (root : Members) : Option Members :=
  descend false (fun _ ↦ alter key fun
    | none => some (.table .header [])
    | some (.table .passage members) => some (.table .header members)
    | some _ => none) path .header root

/-- Add a table to an array of tables by its header. -/
def openElement (path : List String) (key : String) (root : Members) : Option Members :=
  descend false (fun _ ↦ alter key fun
    | none => some (.tables [[]])
    | some (.tables elements) => some (.tables (elements ++ [[]]))
    | some _ => none) path .header root

/-- Put a new item into the table that was last opened by a header. -/
def assignIn (header : List String) (path : List String) (key : String) (item : Item)
    (root : Members) : Option Members :=
  descend false (fun _ members ↦ assign path key item .header members) header .header root

end Marginalia.Toml
