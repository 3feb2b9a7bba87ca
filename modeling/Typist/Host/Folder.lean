import Typist.Host

/-!
# Folders

A folder is a host that has its files in memory, with a working directory among them. Directories are
there as far as they are the working directory or lead to a file.

A path is walked name by name, from the root if it begins with a slash and from the working directory
if not. Each name but the last has to lead to a directory, and so has the last one if a slash is behind
it; `.` stays where it is and `..` goes up. Where a file is created, the last name may be a new one,
without a slash behind it.
-/

namespace Typist

/-- A place in the file system: the names that lead to it from the root. -/
abbrev Place := List Text

/-- Files in memory. -/
structure Folder where
  /-- the files, each with its text if it has one -/
  files : List (Place × Option Text)
  /-- the working directory -/
  home : Place := []
  /-- what was printed on standard error, the last line first -/
  complaints : List Text := []

namespace Folder

/-- What is at a place. -/
inductive Found where
  | file (text : Option Text)
  | directory
  | nothing

/-- What is at a place. -/
def find (f : Folder) (p : Place) : Found :=
  match f.files.find? (·.1 = p) with
  | some (_, text) => .file text
  | none =>
    if p.isPrefixOf f.home || f.files.any (p.isPrefixOf ·.1) then .directory else .nothing

/-- The place one step further, from a place that has to be a directory. An empty name, as between two
slashes, stays like `.` does. -/
def step (f : Folder) (p : Place) (name : Text) : Except PathFault Place :=
  match f.find p with
  | .nothing => .error .absent
  | .file _ => .error .blocked
  | .directory =>
    if name.isEmpty || name = ['.'] then .ok p
    else if name = ['.', '.'] then .ok p.dropLast
    else .ok (p ++ [name])

/-- The place that names lead to. -/
def walk (f : Folder) (p : Place) : List Text → Except PathFault Place
  | [] => .ok p
  | name :: rest =>
    match f.step p name with
    | .ok p => walk f p rest
    | .error fault => .error fault

/-- The place that a path leads to. -/
def place (f : Folder) (path : Text) : Except PathFault Place :=
  match path with
  | [] => .error .absent
  | '/' :: rest => f.walk [] (Text.pieces '/' rest)
  | path => f.walk f.home (Text.pieces '/' path)

/-- The text of a file. -/
def read (f : Folder) (path : Text) : Except PathFault Text :=
  match f.place path with
  | .error fault => .error fault
  | .ok p =>
    match f.find p with
    | .nothing => .error .absent
    | .directory => .error .directory
    | .file none => .error .undecodable
    | .file (some text) => .ok text

/-- A folder in which a file has another text. -/
def put (f : Folder) (p : Place) (text : Text) : Folder :=
  { f with files := (p, some text) :: f.files.filter (·.1 ≠ p) }

/-- Makes a file empty. -/
def create (f : Folder) (path : Text) : Except PathFault Folder :=
  match f.place (path.take (path.length - 1)), path.getLast? with
  | .error fault, some '/' => .error fault
  | _, some '/' => .error .directory
  | _, _ =>
    match f.place path with
    | .error fault => .error fault
    | .ok p =>
      match f.find p with
      | .directory => .error .directory
      | .nothing | .file _ => .ok (f.put p [])

/-- Writes a line at the end of a file that is there. -/
def appendLine (f : Folder) (path line : Text) : Folder :=
  match f.place path, f.read path with
  | .ok p, .ok text => f.put p (text ++ line ++ ['\n'])
  | _, _ => f

instance : Host (StateM Folder) where
  read path := fun f => (f.read path, f)
  create path := fun f =>
    match f.create path with
    | .ok f => (.ok (), f)
    | .error fault => (.error fault, f)
  appendLine path line := fun f => ((), f.appendLine path line)
  complain line := fun f => ((), { f with complaints := line :: f.complaints })

end Folder

end Typist
