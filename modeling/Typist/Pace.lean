import Typist.Delay
import Typist.Random.Generator

/-!
# Pace

How fast one types and erases, and how evenly. A delay after a character is a base delay, spread by
up to a share of itself to either side; erasing spreads by three fifths of that share. A spread delay
is at least five milliseconds. Without a positive share the delay is the base delay, however short,
and nothing is drawn.

A seed decides all draws. Without one a run draws from a key that the machine has chosen at random, and
what is said of runs is said for every key.

A share can be so large that the delay is none (`Delay.ofSeconds?`); that is the one way in which a
run can fail.
-/

namespace Typist

/-- The settings of a run; delays are in milliseconds. -/
structure Pace where
  /-- the delay after a typed character -/
  typing : UInt64 := 55
  /-- the delay after an erased character -/
  erasing : UInt64 := 28
  /-- the share of a delay by which it may go up or down -/
  jitter : Float := 0.3
  /-- how long a region is held before it is erased -/
  hold : UInt64 := 160
  /-- what decides the draws -/
  seed : Option UInt64 := none
  /-- what decides them if there is no seed: a key that the machine has chosen at random -/
  entropy : ChaCha.Key := .zero

namespace Pace

/-- The shortest spread delay, in milliseconds. -/
def leastMillis : Float := 5.0

/-- How much of the share is used in erasing. -/
def erasingShare : Float := 0.6

/-- The usual pace. -/
def usual : Pace := {}

/-- The usual pace without any spread. -/
def steady : Pace := { jitter := 0.0 }

/-- Whether delays with such a share are spread at all. -/
def spreads (share : Float) : Bool :=
  !share.isNaN && !(share ≤ 0.0)

/-- The delay for a base delay, a share and a draw. -/
def spread? (base : UInt64) (share draw : Float) : Option Delay :=
  let middle := base.toFloat
  let millis := middle + draw * (middle * share)
  Delay.ofSeconds? ((if leastMillis < millis then millis else leastMillis) / 1000.0)

/-- A base delay spread by a share, if that is a delay; and the generator behind its draw. -/
def spreadDelay (base : UInt64) (share : Float) (g : Generator) : Option Delay × Generator :=
  if spreads share then
    let (draw, g) := g.draw
    (spread? base share draw, g)
  else (some (.ofMillis base), g)

/-- The delay after a typed character. -/
def typingDelay (p : Pace) (g : Generator) : Option Delay × Generator :=
  spreadDelay p.typing p.jitter g

/-- The delay after an erased character. -/
def erasingDelay (p : Pace) (g : Generator) : Option Delay × Generator :=
  spreadDelay p.erasing (p.jitter * erasingShare) g

/-- The generator of a run at this pace. -/
def generator (p : Pace) : Generator :=
  match p.seed with
  | some seed => .ofSeed seed
  | none => .ofKey p.entropy

end Pace

end Typist
