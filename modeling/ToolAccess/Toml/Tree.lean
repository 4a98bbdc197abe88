import ToolAccess.Toml.Value

/-!
# Building tables

A document gives its tables piece by piece: under headers, and through keys with points. While it
is read, a table remembers how it came about, because that decides what may still be added to it.
A table that only a longer header or key made is implicit. A table made by a key with points can
be extended by such keys alone, one made on the way to a longer header can get its own header
once, and one that had its header, like every value, is closed.
-/

namespace ToolAccess.Toml

/-- What stands at a key while a document is read. -/
inductive Item where
  /-- A value, also an array or a table written as one. -/
  | value (v : Toml)
  /-- A table: whether it was made on the way, whether a key with points made it, and its
  entries. -/
  | table (isImplicit isDotted : Bool) (entries : List (String × Item))
  /-- The tables of an array of tables, each under an empty name. -/
  | tables (elements : List (String × Item))
  deriving Inhabited

/-- The entries of a table that is being read. -/
abbrev Entries := List (String × Item)

/-- The entries with another item at a key that is there. -/
def replaceItem (key : String) (item : Item) (entries : Entries) : Entries :=
  entries.map fun e ↦ if e.1 == key then (key, item) else e

/-- The entries with an item at a new key, or nothing if the key is taken. -/
def addNew? (key : String) (item : Item) (entries : Entries) : Option Entries :=
  match entries.lookup key with
  | some _ => none
  | none => some (entries ++ [(key, item)])

/-- Changes the entries of the last table of an array of tables. -/
def onLast? {α : Type} (change : Entries → Option (Entries × α)) (elements : Entries) :
    Option (Entries × α) :=
  match elements.getLast? with
  | some (name, .table isImplicit isDotted entries) =>
    (change entries).map fun (entries, a) ↦
      (elements.dropLast ++ [(name, .table isImplicit isDotted entries)], a)
  | _ => none

/-- Sets a key below the tables that a key with points names. `isDotted` tells whether such a key
made the table at hand. -/
def setDotted? (key : String) (v : Toml) : List String → Bool → Entries → Option (Entries × Unit)
  | [], isDotted, entries =>
    if isDotted then (addNew? key (.value v) entries).map (·, ()) else none
  | part :: path, _, entries =>
    match entries.lookup part with
    | none =>
      (setDotted? key v path true []).map fun (sub, _) ↦
        (entries ++ [(part, .table true true sub)], ())
    | some (.table true isDotted sub) =>
      (setDotted? key v path isDotted sub).map fun (sub, _) ↦
        (replaceItem part (.table true isDotted sub) entries, ())
    | some (.tables elements) =>
      (onLast? (setDotted? key v path false) elements).map fun (elements, _) ↦
        (replaceItem part (.tables elements) entries, ())
    | some (.table false ..) | some (.value _) => none

/-- Sets a key, which may have points, in the table at hand. -/
def setKey? (path : List String) (key : String) (v : Toml) (entries : Entries) : Option Entries :=
  match path with
  | [] => addNew? key (.value v) entries
  | _ => (setDotted? key v path false entries).map (·.1)

/-- Changes the entries of the table at a path, making tables on the way where there are none. -/
def atPath? {α : Type} (change : Entries → Option (Entries × α)) :
    List String → Entries → Option (Entries × α)
  | [], entries => change entries
  | part :: path, entries =>
    match entries.lookup part with
    | none =>
      (atPath? change path []).map fun (sub, a) ↦ (entries ++ [(part, .table true false sub)], a)
    | some (.table isImplicit isDotted sub) =>
      (atPath? change path sub).map fun (sub, a) ↦
        (replaceItem part (.table isImplicit isDotted sub) entries, a)
    | some (.tables elements) =>
      (onLast? (atPath? change path) elements).map fun (elements, a) ↦
        (replaceItem part (.tables elements) entries, a)
    | some (.value _) => none

/-- Takes a table that was made on the way to a longer header out of its parent, so that it can
be given its own header: the other entries, and those of the table. -/
def openTable? (key : String) (parent : Entries) : Option (Entries × Entries) :=
  match parent.lookup key with
  | none => some (parent, [])
  | some (.table true false sub) => some (parent.filter (·.1 != key), sub)
  | some _ => none

/-- Makes sure that an array of tables is at a key. -/
def openTables? (key : String) (parent : Entries) : Option (Entries × Entries) :=
  match parent.lookup key with
  | none => some (parent ++ [(key, .tables [])], [])
  | some (.tables _) => some (parent, [])
  | some _ => none

/-- Puts a finished table at its key: as a table, or as the last of an array of tables. -/
def closeTable? (isElement : Bool) (key : String) (table : Entries) (parent : Entries) :
    Option (Entries × Unit) :=
  if isElement then
    match parent.lookup key with
    | some (.tables elements) =>
      some (replaceItem key (.tables (elements ++ [("", .table false false table)])) parent, ())
    | _ => none
  else some (parent ++ [(key, .table false false table)], ())

mutual

/-- The value that an item has become. -/
def Item.toToml : Item → Toml
  | .value v => v
  | .table _ _ entries => .table (entriesToToml entries)
  | .tables elements => .array (elementsToToml elements)

/-- The values of entries. -/
def entriesToToml : List (String × Item) → List (String × Toml)
  | [] => []
  | (key, item) :: rest => (key, item.toToml) :: entriesToToml rest

/-- The values of the tables of an array. -/
def elementsToToml : List (String × Item) → List Toml
  | [] => []
  | (_, item) :: rest => item.toToml :: elementsToToml rest

end

/-- The document read so far: the tables that are finished, and the one at hand with its key.
Before the first header the table at hand is the document itself. -/
structure Draft where
  root : Entries
  current : Entries
  /-- The parts in front of the last, the last, and whether the table is one of an array. -/
  header : Option (List String × String × Bool)

namespace Draft

/-- Nothing read. -/
def blank : Draft := ⟨[], [], none⟩

/-- The document with the table at hand finished. -/
def finish? (d : Draft) : Option Entries :=
  match d.header with
  | none => some d.current
  | some (path, key, isElement) =>
    (atPath? (closeTable? isElement key d.current) path d.root).map (·.1)

/-- Begins a table under a header. -/
def beginTable? (d : Draft) (path : List String) (key : String) : Option Draft := do
  let root ← d.finish?
  let (root, current) ← atPath? (openTable? key) path root
  return ⟨root, current, some (path, key, false)⟩

/-- Begins the next table of an array under a header. -/
def beginElement? (d : Draft) (path : List String) (key : String) : Option Draft := do
  let root ← d.finish?
  let (root, _) ← atPath? (openTables? key) path root
  return ⟨root, [], some (path, key, true)⟩

/-- Sets a key in the table at hand. -/
def set? (d : Draft) (path : List String) (key : String) (v : Toml) : Option Draft :=
  (setKey? path key v d.current).map fun current ↦ { d with current }

end Draft

end ToolAccess.Toml
