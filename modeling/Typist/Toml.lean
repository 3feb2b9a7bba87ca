import Typist.Toml.Number
import Typist.Toml.Table

/-!
# TOML documents

A document is a sequence of lines: headers of tables, headers of tables in arrays, and keys with their
values. `Toml.read?` gives the table that a document describes, or nothing if it breaks a rule of the
format, in its writing or in where its tables go (`Toml/Table`).
-/

namespace Typist.Toml

/-- Whether a key may hold a character without quotes. -/
def isKeyChar (c : Char) : Bool :=
  c.isAlphanum || c = '_' || c = '-'

/-- One part of a key. -/
def keyPart? (s : Text) : Option (Text × Text) :=
  match s.takeWhile isKeyChar with
  | [] => shortString? s
  | c :: cs => some (c :: cs, s.dropWhile isKeyChar)

/-- A key of one part or more, with dots and blanks between them; `steps` bounds the parts. -/
def key? : (steps : Nat) → Text → Option (List Text × Text)
  | 0, _ => none
  | steps + 1, s => do
    let (part, s) ← keyPart? s
    match skipBlanks s with
    | '.' :: rest =>
      let (parts, rest) ← key? steps (skipBlanks rest)
      return (part :: parts, rest)
    | _ => return ([part], s)

/-- A value that is no array or inline table. -/
def scalar? (s : Text) : Option (Value × Text) :=
  match s with
  | [] => none
  | c :: _ =>
    if c = '"' || c = '\'' then (string? s).map fun (t, rest) => (.text t, rest)
    else if c = 't' then (Text.after? "true".toList s).map fun rest => (.bool true, rest)
    else if c = 'f' then (Text.after? "false".toList s).map fun rest => (.bool false, rest)
    else
      match moment? s, float? s, int? s with
      | some (t, rest), _, _ => some (.text t, rest)
      | none, some (f, rest), _ => some (.float f, rest)
      | none, none, some (i, rest) => some (.int i, rest)
      | none, none, none => none

mutual

/-- A value; `steps` bounds what it holds and how deep. -/
def value? : (steps : Nat) → Text → Option (Value × Text)
  | 0, _ => none
  | steps + 1, s =>
    match s with
    | '[' :: s => (items? steps s).map fun (vs, rest) => (.list vs, rest)
    | '{' :: s =>
      match skipBlanks s with
      | '}' :: rest => some (.table [], rest)
      | s => (pairs? steps {} s).map fun (t, rest) => (.table (Table.entryValues t.entries), rest)
    | s => scalar? s

/-- The items of an array up to its closing bracket, with a comma behind each but the last one. -/
def items? : (steps : Nat) → Text → Option (List Value × Text)
  | 0, _ => none
  | steps + 1, s =>
    match skipFree s with
    | ']' :: rest => some ([], rest)
    | s => do
      let (v, s) ← value? steps s
      match skipFree s with
      | ',' :: rest =>
        let (vs, rest) ← items? steps rest
        return (v :: vs, rest)
      | ']' :: rest => return ([v], rest)
      | _ => none

/-- The pairs of an inline table from its first one to its closing brace. -/
def pairs? : (steps : Nat) → Table → Text → Option (Table × Text)
  | 0, _, _ => none
  | steps + 1, t, s => do
    let (key, s) ← key? (s.length + 1) s
    let '=' :: s := skipBlanks s | none
    let (v, s) ← value? steps (skipBlanks s)
    let t ← t.addDotted key.dropLast (key.getLast?.getD []) v
    match skipBlanks s with
    | ',' :: rest => pairs? steps t (skipBlanks rest)
    | '}' :: rest => return (t, rest)
    | _ => none

end

/-- The path in a header, and what follows the closing brackets. -/
def header? (closing : Text) (s : Text) : Option (List Text × Text) := do
  let (path, s) ← key? (s.length + 1) (skipBlanks s)
  let rest ← closing.after? (skipBlanks s)
  return (path, rest)

/-- A draft with one more line, which is not blank, and what follows what was read of it. -/
def statement? (d : Draft) (s : Text) : Option (Draft × Text) :=
  match s with
  | '[' :: '[' :: s => do
    let (path, rest) ← header? [']', ']'] s
    return (← d.openRow path, rest)
  | '[' :: s => do
    let (path, rest) ← header? [']'] s
    return (← d.openTable path, rest)
  | s => do
    let (key, s) ← key? (s.length + 1) s
    let '=' :: s := skipBlanks s | none
    let s := skipBlanks s
    let (v, rest) ← value? (2 * s.length + 2) s
    let current ← d.current.addDotted key.dropLast (key.getLast?.getD []) v
    return ({ d with current }, rest)

/-- A draft with the lines of a text; `steps` bounds how many there can be. -/
def statements? : (steps : Nat) → Draft → Text → Option Draft
  | 0, _, _ => none
  | steps + 1, d, s =>
    match skipFree s with
    | [] => some d
    | s => do
      let (d, s) ← statement? d s
      match skipComment (skipBlanks s) with
      | [] => some d
      | s => statements? steps d (← afterBreak? s)

/-- The entries of the table that a document describes. -/
def read? (s : Text) : Option (List (Text × Value)) := do
  let s := match s with
    | '\uFEFF' :: s => s
    | s => s
  let draft ← statements? (s.length + 2) {} s
  let table ← draft.finish
  return Table.entryValues table.entries

end Typist.Toml
