import Typist.Text

/-!
# Hosts

What the program asks of the machine it runs on: to read a file, to create one, to write behind what
is in it, and to print on standard error. Every part of the program that needs one of these is written
for any host, so that the same code runs on a real machine and on files in memory.
-/

namespace Typist

/-- What keeps a path from being read or created. -/
inductive PathFault where
  /-- nothing is there -/
  | absent
  /-- a directory is there -/
  | directory
  /-- something on the way is no directory -/
  | blocked
  /-- the file is not in UTF-8 -/
  | undecodable
  deriving DecidableEq, Repr

/-- What to say of a fault. -/
def PathFault.message : PathFault → Text
  | .absent => "No such file or directory (os error 2)".toList
  | .directory => "Is a directory (os error 21)".toList
  | .blocked => "Not a directory (os error 20)".toList
  | .undecodable => "stream did not contain valid UTF-8".toList

/-- The operations of a machine. -/
class Host (m : Type → Type) where
  /-- the text of a file -/
  read : Text → m (Except PathFault Text)
  /-- makes a file empty, and makes it first if it is not there -/
  create : Text → m (Except PathFault Unit)
  /-- writes a line at the end of a file -/
  appendLine : (path line : Text) → m Unit
  /-- prints a line on standard error -/
  complain : Text → m Unit

end Typist
