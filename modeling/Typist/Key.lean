import Typist.Text

/-!
# Keys

What a key means to the player. Only a key that goes down means something: `q`, Escape and Ctrl-C quit,
the space, Enter and the right arrow move on, and every other key is just a key.
-/

namespace Typist

/-- Which key it is. -/
inductive KeyCode where
  | char (value : Char)
  | escape
  | enter
  | right
  /-- any key without a meaning here -/
  | other
  deriving DecidableEq, Repr

/-- What happens to a key. -/
inductive KeyKind where
  | press
  | release
  | again
  deriving DecidableEq, Repr

/-- Something that happens to a key. -/
structure Key where
  code : KeyCode
  /-- whether Ctrl is held -/
  ctrl : Bool := false
  kind : KeyKind := .press
  deriving DecidableEq, Repr

/-- What a user, or the terminal, asks of the player. -/
inductive Input where
  /-- to move on -/
  | advance
  /-- to stop -/
  | quit
  /-- to draw anew, because the size has changed -/
  | redraw
  /-- nothing in particular -/
  | other
  deriving DecidableEq, Repr

/-- What a key means. -/
def Key.meaning (k : Key) : Input :=
  if k.kind ≠ .press then .other
  else match k.code with
    | .char 'q' => .quit
    | .char 'c' => if k.ctrl then .quit else .other
    | .escape => .quit
    | .char ' ' => .advance
    | .enter => .advance
    | .right => .advance
    | .char _ => .other
    | .other => .other

end Typist
