import Typist.Settings.Value

/-!
# Paths to settings

A setting is named by a path: names with dots between them, and list places in brackets, as in
`viewer.cursor` or `a.b[2]`. Names consist of ASCII letters, digits, blanks, hyphens and underscores,
and their case does not matter: every name is stored in lower case.

`Value.place` puts a value where a path leads. What is on the way is made to fit: it becomes a table
where the path goes on with a name, and a list, long enough, where it goes on with a place. A table
that is put under a name is merged into the table there, entry by entry.
-/

namespace Typist

/-- One step of a path. -/
inductive PathStep where
  | name (value : Text)
  /-- a place in a list; below zero, counted from its end -/
  | index (value : Int)
  deriving DecidableEq, Repr

namespace PathStep

/-- Whether names may hold a character. -/
def isNameChar (c : Char) : Bool :=
  c.isAlphanum || c = ' ' || c = '_' || c = '-'

/-- A name at the start of a text. -/
def name? (s : Text) : Option (PathStep × Text) :=
  match s.takeWhile isNameChar with
  | [] => none
  | c :: cs => some (.name (c :: cs), s.dropWhile isNameChar)

/-- The digits of a list place and what follows its closing bracket. -/
def index? (negative : Bool) (s : Text) : Option (PathStep × Text) :=
  match s.takeWhile Char.isDigit, s.dropWhile Char.isDigit with
  | d :: ds, ']' :: rest =>
    let n := decimalValue (d :: ds)
    if n < Nat.pow 2 63 || (negative && n = Nat.pow 2 63) then
      some (.index (if negative then -n else n), rest)
    else none
  | _, _ => none

/-- A later step at the start of a text, with the character that introduces it. -/
def next? : Text → Option (PathStep × Text)
  | '.' :: s => name? s
  | '[' :: '-' :: s => index? true s
  | '[' :: s => index? false s
  | _ => none

/-- Later steps; `steps` bounds how many there can be. -/
def further? : (steps : Nat) → Text → Option (List PathStep)
  | _, [] => some []
  | 0, _ => none
  | steps + 1, s => do
    let (step, rest) ← next? s
    return step :: (← further? steps rest)

end PathStep

/-- The path that a text spells. -/
def path? (s : Text) : Option (List PathStep) := do
  let (step, rest) ← PathStep.name? s
  return step :: (← PathStep.further? rest.length rest)

namespace Value

/-- The entries of a table; of anything else, none. -/
def entries : Value → List (Text × Value)
  | .table es => es
  | _ => []

/-- The items of a list; of anything else, none. -/
def items : Value → List Value
  | .list vs => vs
  | _ => []

/-- The value under a name. -/
def under? (v : Value) (name : Text) : Option Value :=
  (v.entries.find? fun (n, _) => n = name).map Prod.snd

/-- Entries with a value under a name, in place of the one there or behind all others. -/
def insertEntry (name : Text) (v : Value) : List (Text × Value) → List (Text × Value)
  | [] => [(name, v)]
  | (n, w) :: es => if n = name then (n, v) :: es else (n, w) :: insertEntry name v es

mutual

/-- A table, or what is made one, with a value under a name. -/
def setName (name : Text) : (value : Value) → Value → Value
  | .table incoming, root =>
    let target := (root.under? name.lowercase).getD (.table [])
    .table (insertEntry name.lowercase (setNames incoming target) root.entries)
  | value, root => .table (insertEntry name.lowercase value root.entries)

/-- A table with values under names. -/
def setNames : (incoming : List (Text × Value)) → Value → Value
  | [], root => root
  | (name, value) :: rest, root => setNames rest (setName name value root)

end

/-- The place in a list of `length` items that an index means. -/
def indexIn (length : Nat) (i : Int) : Nat :=
  if i < 0 then length - i.natAbs else i.toNat

/-- A list with one item changed; it is filled up with nothing as far as need be. -/
def mapItem (i : Int) (f : Value → Value) (vs : List Value) : List Value :=
  let n := indexIn vs.length i
  let vs := vs ++ List.replicate (n + 1 - vs.length) .nil
  vs.set n (f (vs.getD n .nil))

/-- A value with another one where a path leads. -/
def place (value : Value) : (path : List PathStep) → Value → Value
  | [], _ => value
  | [.name n], root => setName n value root
  | .name n :: rest, root =>
    let child := (root.under? n.lowercase).getD .nil
    .table (insertEntry n.lowercase (place value rest child) root.entries)
  | .index i :: rest, root => .list (mapItem i (place value rest) root.items)

/-- A table with a value where a name leads, read as a path; a name that is no path is taken as it
is. -/
def placeNamed (root : Value) (name : Text) (value : Value) : Value :=
  match path? name with
  | some path => place value path root
  | none => setName name value root

/-- A table with the entries of another one put where their names lead. -/
def layer (root : Value) (upper : List (Text × Value)) : Value :=
  upper.foldl (fun root (name, value) => root.placeNamed name value) root

end Value

end Typist
