import ReferencePages.Json.Basic
import ReferencePages.Keyed

/-!
# Tables of a TOML document

A table comes from a header, is implied by a longer header, or is implied by a key with dots.
What a table may still take depends on this: no table has two headers, and a key with dots does
not add to a table that has one.
-/

namespace ReferencePages.Toml

/-- What a table comes from. -/
inductive TableKind where
  /-- Its own header. -/
  | header
  /-- The header of a table inside it. -/
  | implied
  /-- A key with dots. -/
  | dotted
deriving Repr, DecidableEq

/-- What stands under a key. -/
inductive Item where
  /-- A value; nothing is added to it. -/
  | value (v : Json)
  | table (kind : TableKind) (entries : List (String × Item))
  /-- The tables of an array, each from a header of its own. -/
  | tables (elements : List (List (String × Item)))
deriving Inhabited

/-- The entries of a table. -/
abbrev Entries := List (String × Item)

mutual

/-- An item as a value. -/
def Item.toJson : Item → Json
  | .value v => v
  | .table _ entries => .object (entriesToMembers entries)
  | .tables elements => .array (elementsToJson elements)

/-- Entries as the members of an object. -/
def entriesToMembers : Entries → List (Option String × Json)
  | [] => []
  | (key, item) :: rest => (some key, item.toJson) :: entriesToMembers rest

/-- The tables of an array as objects. -/
def elementsToJson : List Entries → List Json
  | [] => []
  | entries :: rest => .object (entriesToMembers entries) :: elementsToJson rest

end

/-- Put an item under a key. -/
def Entries.insert (t : Entries) (key : String) (item : Item) : Entries :=
  Keyed.insertEntry key item t

/-- Change the table that a path leads to; of an array, the path leads to the last table. Tables
that are missing on the way are made, and `dotted` tells whether a key with dots asks for them. -/
def changeAt (dotted : Bool) (change : TableKind → Entries → Option Entries) :
    List String → TableKind → Entries → Option Entries
  | [], kind, t => change kind t
  | key :: path, _, t => do
    let item : Item ← match t.lookup key with
      | none =>
        let kind := if dotted then .dotted else .implied
        (changeAt dotted change path kind []).map (.table kind)
      | some (.table kind entries) =>
        if dotted && kind == .header then none
        else (changeAt dotted change path kind entries).map (.table kind)
      | some (.tables elements) =>
        match elements.getLast? with
        | none => none
        | some last =>
          (changeAt dotted change path .header last).map fun t => .tables (elements.dropLast ++ [t])
      | some (.value _) => none
    some (t.insert key item)

/-- Put a value under a key with dots; the key is new, and dots lead to no table that comes from
anything else. -/
def putValue (path : List String) (key : String) (v : Json) (t : Entries) : Option Entries :=
  changeAt true (fun kind t =>
    if (path.isEmpty || kind == .dotted) && (t.lookup key).isNone then
      some (t.insert key (.value v))
    else none) path .header t

/-- Begin the table of a header. The tables inside it may come before it. -/
def openTable (path : List String) (key : String) (t : Entries) : Option Entries :=
  changeAt false (fun _ t =>
    match t.lookup key with
    | none => some (t.insert key (.table .header []))
    | some (.table .implied entries) => some (t.insert key (.table .header entries))
    | some _ => none) path .header t

/-- Begin the next table of an array. -/
def openElement (path : List String) (key : String) (t : Entries) : Option Entries :=
  changeAt false (fun _ t =>
    match t.lookup key with
    | none => some (t.insert key (.tables [[]]))
    | some (.tables elements) => some (t.insert key (.tables (elements ++ [[]])))
    | some _ => none) path .header t

end ReferencePages.Toml
