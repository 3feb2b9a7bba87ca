import Typist.Deck
import Typist.Sheet
import Typist.Typewriter

/-!
# Scenes

What playing a slide does, act by act, with nobody to stop it. Nothing that happens in the meantime has
a say in it, so it is known beforehand: it is what the run does on a blank sheet. Doing the acts on
another blank surface one at a time (`Act.onto`), with all the time in the world between two of them,
does the same there.

A scene that was given up in a wait has done what a run has that was cancelled there; so what there is
to count and to remark of it comes from that run (`Scene.cutAt`).
-/

namespace Typist

/-- Types a slide on a blank sheet. -/
def Slide.play (pace : Pace) (cancel : Cancel) (s : Slide) : Outcome Sheet :=
  typeTokens pace cancel (tokensToPlay s.body) .blank

/-- Does to a surface what an act did to another one. A wait does nothing to it. -/
def Act.onto {σ : Type} [Surface σ] (surface : σ) : Act → σ
  | .glyph _ value => (Surface.createGlyph surface value).2
  | .container _ tag => (Surface.createContainer surface tag).2
  | .append parent child => Surface.append surface parent child
  | .remove parent child => Surface.remove surface parent child
  | .wait _ => surface

/-- A slide with the run that types it. -/
structure Scene where
  slide : Slide
  run : Outcome Sheet

namespace Scene

/-- A slide made ready at a pace. -/
def ofSlide (pace : Pace) (s : Slide) : Scene where
  slide := s
  run := s.play pace .never

/-- The run that is stopped in the wait behind so many others. -/
def cutAt (pace : Pace) (waits : Nat) (s : Scene) : Outcome Sheet :=
  s.slide.play pace (.countdown .request waits)

end Scene

end Typist
