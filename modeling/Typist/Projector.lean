import Typist.Screen
import Typist.Sheet

/-!
# Projectors

A projector is a surface that shows: a sheet, with a picture of it that is drawn anew after each change
of its links, and whenever that is asked for. Drawing can fail. The first failure is kept until it is
taken, and nothing is drawn in the meantime; after that, whatever has changed since the last good
picture is drawn at the next change.
-/

namespace Typist

/-- A sheet with a picture of it. -/
structure Projector where
  sheet : Sheet := .blank
  chrome : Chrome
  size : Size
  phase : Phase := .typing
  /-- how many pictures were attempted -/
  draws : Nat := 0
  /-- which attempts fail, counted from one -/
  fails : Nat → Bool := fun _ => false
  /-- the revision of the sheet in the last good picture -/
  drawn : Option Nat := none
  /-- the number of the attempt whose failure is kept -/
  failure : Option Nat := none
  /-- the last good picture -/
  picture : Option Picture := none

namespace Projector

/-- What the screen would show now. -/
def render (p : Projector) : Picture :=
  Screen.render p.size p.chrome p.sheet.spans p.phase

/-- Draws, unless a failure is kept. -/
def redraw (p : Projector) : Projector :=
  if p.failure.isSome then p
  else
    let p := { p with draws := p.draws + 1 }
    if p.fails p.draws then { p with failure := some p.draws }
    else { p with drawn := some p.sheet.revision, picture := some p.render }

/-- Draws if the sheet is not what the last good picture shows. -/
def redrawIfChanged (p : Projector) : Projector :=
  if p.drawn = some p.sheet.revision then p else p.redraw

/-- Changes the phase, and draws. -/
def setPhase (p : Projector) (phase : Phase) : Projector :=
  { p with phase }.redraw

/-- The failure that was kept, and a projector without it. -/
def takeFailure (p : Projector) : Option Nat × Projector :=
  (p.failure, { p with failure := none })

/-- What a failure says. -/
def failureText (attempt : Nat) : Text :=
  "draw ".toList ++ decimal attempt ++ " failed".toList

instance : Surface Projector where
  createGlyph p c :=
    let (node, sheet) := p.sheet.create (.glyph c)
    (node, { p with sheet })
  createContainer p tag :=
    let (node, sheet) := p.sheet.create (.container tag)
    (node, { p with sheet })
  append p parent child := { p with sheet := p.sheet.append parent child }.redrawIfChanged
  remove p parent child := { p with sheet := p.sheet.remove parent child }.redrawIfChanged
  parent? p := p.sheet.parent?
  childCount p := p.sheet.childCount
  tag? p := p.sheet.tag?

end Projector

end Typist
