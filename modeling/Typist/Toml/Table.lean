import Typist.Settings.Value

/-!
# Tables in the making

A TOML document fills in tables piece by piece, and whether a piece may go where it wants to depends
on how the tables there came to be:

* a table is *open* if no header has defined it: because it was only passed through on the way to
  another one, or because dotted keys made it;
* a *dotted* table was made by dotted keys, and is filled by dotted keys alone;
* a table under a header can be defined once, an open table that is not dotted too;
* an array of tables grows with each of its headers, and paths lead into its last table;
* values, inline tables among them, are finished where they stand.
-/

namespace Typist.Toml

/-- What stands under a key. -/
inductive Item where
  /-- a finished value -/
  | value (v : Value)
  /-- a table -/
  | table (isOpen dotted : Bool) (entries : List (Text × Item))
  /-- an array of tables, the last one first -/
  | tables (rows : List (List (Text × Item)))

/-- A table with the marks of how it came to be. -/
structure Table where
  isOpen : Bool := false
  dotted : Bool := false
  entries : List (Text × Item) := []

namespace Table

/-- The item under a key. -/
def item? (key : Text) (es : List (Text × Item)) : Option Item :=
  (es.find? fun (k, _) => k = key).map Prod.snd

/-- Entries with an item under a key, in place of the one there or behind all others. -/
def insert (key : Text) (i : Item) : List (Text × Item) → List (Text × Item)
  | [] => [(key, i)]
  | (k, j) :: es => if k = key then (k, i) :: es else (k, j) :: insert key i es

/-- A table as an item. -/
def toItem (t : Table) : Item := .table t.isOpen t.dotted t.entries

/-- A table with a change at the end of a path. Tables on the way are made if they are missing; with
`dotted`, the path is a dotted key and may not lead through a table that a header defined. -/
def alter (dotted : Bool) (f : Table → Option Table) : (path : List Text) → Table → Option Table
  | [], t => f t
  | key :: path, t =>
    match item? key t.entries with
    | none => do
      let u ← alter dotted f path { isOpen := true, dotted }
      return { t with entries := insert key u.toItem t.entries }
    | some (.table isOpen wasDotted es) => do
      if dotted && !isOpen then none
      let u ← alter dotted f path { isOpen, dotted := wasDotted, entries := es }
      return { t with entries := insert key u.toItem t.entries }
    | some (.tables (row :: rows)) => do
      let u ← alter dotted f path { entries := row }
      return { t with entries := insert key (.tables (u.entries :: rows)) t.entries }
    | some _ => none

/-- A table with a value under a new key. -/
def add (key : Text) (v : Value) (t : Table) : Option Table :=
  if (item? key t.entries).isSome then none
  else some { t with entries := insert key (.value v) t.entries }

/-- A table with a value under a dotted key. A plain key goes into a table that is not dotted, and the
last part of a longer one into a table that is. -/
def addDotted (path : List Text) (key : Text) (v : Value) (t : Table) : Option Table :=
  t.alter true (fun u => if u.dotted = path.isEmpty then none else u.add key v) path

mutual

/-- The value of an item. -/
def itemValue : Item → Value
  | .value v => v
  | .table _ _ es => .table (entryValues es)
  | .tables rows => .list (rowValues rows).reverse

/-- The values of entries. -/
def entryValues : List (Text × Item) → List (Text × Value)
  | [] => []
  | (k, i) :: es => (k, itemValue i) :: entryValues es

/-- The values of tables. -/
def rowValues : List (List (Text × Item)) → List Value
  | [] => []
  | row :: rows => .table (entryValues row) :: rowValues rows

end

end Table

/-- A document being read: the tables so far, and the one that keys go into now, which is put in its
place when it is finished. -/
structure Draft where
  root : Table := {}
  current : Table := {}
  /-- where the current table belongs; nowhere for the keys in front of the first header -/
  path : List Text := []
  /-- whether the current table is one of an array -/
  inArray : Bool := false

namespace Draft

/-- A draft whose current table is in its place. -/
def finish (d : Draft) : Option Table :=
  match d.path.reverse with
  | [] => some d.current
  | key :: before =>
    d.root.alter false (fun t =>
      if d.inArray then
        match Table.item? key t.entries with
        | some (.tables rows) =>
          some { t with entries := Table.insert key (.tables (d.current.entries :: rows)) t.entries }
        | some _ => none
        | none => some { t with entries := Table.insert key (.tables [d.current.entries]) t.entries }
      else some { t with entries := Table.insert key d.current.toItem t.entries }) before.reverse

/-- What stands in a table under the last key of a path. -/
def itemAt? (t : Table) (before : List Text) (key : Text) : Option (Option Item) :=
  match before with
  | [] => some (Table.item? key t.entries)
  | k :: ks =>
    match Table.item? k t.entries with
    | none => some none
    | some (.table isOpen dotted es) => itemAt? { isOpen, dotted, entries := es } ks key
    | some (.tables (row :: _)) => itemAt? { entries := row } ks key
    | some _ => none

/-- A draft at the header of a table. -/
def openTable (path : List Text) (d : Draft) : Option Draft := do
  let root ← d.finish
  let key ← path.getLast?
  match ← itemAt? root path.dropLast key with
  | none => some { root, path }
  | some (.table true false es) => some { root, current := { entries := es }, path }
  | some _ => none

/-- A draft at the header of a table of an array. -/
def openRow (path : List Text) (d : Draft) : Option Draft := do
  let root ← d.finish
  let key ← path.getLast?
  match ← itemAt? root path.dropLast key with
  | none => some { root, path, inArray := true }
  | some (.tables _) => some { root, path, inArray := true }
  | some _ => none

end Draft

end Typist.Toml
