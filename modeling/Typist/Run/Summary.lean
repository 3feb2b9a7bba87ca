import Typist.Delay
import Typist.Surface

/-!
# What a run leaves behind

* `Summary` — the counts of a run;
* `Act` — one thing that a run did to its surface or asked of its clock;
* `Note` — what a run has to say about itself to a reader of its log.
-/

namespace Typist

/-- What a run did, counted as it went. -/
structure Summary where
  /-- characters typed -/
  typed : Nat := 0
  /-- characters erased -/
  erased : Nat := 0
  /-- pauses taken -/
  pauses : Nat := 0
  /-- delete regions entered, at every depth -/
  regions : Nat := 0
  /-- closes without an open scope to match -/
  ignoredCloses : Nat := 0
  /-- all delays that were asked for, together -/
  requested : Delay := .zero
  deriving DecidableEq, Repr

/-- The characters that were typed and not erased. -/
def Summary.net (s : Summary) : Nat :=
  s.typed - s.erased

/-- A step that others can see. -/
inductive Act where
  | glyph (node : Node) (value : Char)
  | container (node : Node) (tag : Tag)
  | append (parent child : Node)
  | remove (parent child : Node)
  | wait (delay : Delay)
  deriving DecidableEq, Repr

/-- The delay of a wait. -/
def Act.delay? : Act → Option Delay
  | .wait d => some d
  | _ => none

/-- The line for an act. -/
def Act.text : Act → Text
  | .glyph node value => "text ".toList ++ decimal node ++ [' ', value]
  | .container node tag => "container ".toList ++ decimal node ++ ' ' :: tag.name
  | .append parent child => "append ".toList ++ decimal parent ++ ' ' :: decimal child
  | .remove parent child => "remove ".toList ++ decimal parent ++ ' ' :: decimal child
  | .wait delay => "wait ".toList ++ delay.text

/-- A remark of a run. -/
inductive Note where
  /-- a close had no open scope to match -/
  | ignoredClose (tag : Tag)
  /-- the tokens of a region are about to be typed -/
  | typingRegion (tokens : Nat)
  /-- a region is about to be erased -/
  | erasingRegion (units : Nat)
  deriving DecidableEq, Repr

end Typist
