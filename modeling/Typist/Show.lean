import Typist.Key
import Typist.Log.Entry
import Typist.Projector
import Typist.Scene

/-!
# Shows

A show plays the slides of a deck one after another, each on a projector of its own, and listens to
keys all the while. Two work on it, and neither waits for the other:

* the **reader** takes keys and changes of the screen's size as they come, and puts what they mean into
  a queue. When somebody wants to quit, it first cancels the typing, then puts the wish into the queue,
  and then closes the queue and reads no more;
* the **player** types, and after each slide throws away what is in the queue; then it waits for a key
  or for a gap to run out, or, behind the last slide, for any key. It notices that typing is cancelled
  where a run does, in front of a wait and in it; and in a gap. A picture that could not be drawn
  ends the show, but not before the slide is typed, or the waiting is done.

`Show.move?` is one step of either of them, or of the clock, or of the world outside. A list of moves
is one way in which their steps can fall; whatever holds after all lists of moves holds however fast
the two are.
-/

namespace Typist

/-- What the reader is about to do. -/
inductive Reader where
  /-- to wait for a key -/
  | listening
  /-- to cancel the typing, since somebody wants to quit -/
  | cancelling
  /-- to put something into the queue -/
  | sending (input : Input)
  /-- to close the queue -/
  | closing
  /-- nothing any more -/
  | gone
  deriving DecidableEq, Repr

/-- How a show ends. -/
inductive Ending where
  /-- it was seen to its end, or stopped -/
  | finished
  /-- a delay was too long to be one -/
  | overflow
  /-- a picture could not be drawn, at this attempt for the slide that was on -/
  | undrawn (attempt : Nat)
  deriving DecidableEq, Repr

/-- What the player is about to do. -/
inductive Stage where
  /-- to do the acts that are left of a scene, with so many waits behind it -/
  | typing (acts : List Act) (waits : Nat)
  /-- to go on with the acts that are left when a delay is over -/
  | resting (delay : Delay) (acts : List Act) (waits : Nat)
  /-- to throw away what is in the queue -/
  | draining
  /-- to go on when it is asked to -/
  | waiting
  /-- to go on when a delay is over -/
  | holding (gap : Delay)
  /-- to end when any key is pressed -/
  | lingering
  /-- nothing any more -/
  | over (ending : Ending)
  deriving DecidableEq, Repr

/-- A deck that is being shown. -/
structure Show where
  pace : Pace
  viewer : Viewer
  /-- how many slides are done -/
  behind : Nat := 0
  /-- the slide that is on -/
  scene : Scene
  /-- the slides to come -/
  ahead : List Scene
  projector : Projector
  /-- which attempts to draw fail, for each slide -/
  fails : Nat → Nat → Bool := fun _ _ => false
  stage : Stage
  reader : Reader := .listening
  /-- what the reader has sent and the player has not received, in order -/
  queue : List Input := []
  /-- whether typing is cancelled -/
  cancelled : Bool := false
  /-- what the log gets, in order -/
  log : List Log.Entry := []

namespace Show

/-! ## Slides -/

/-- The projector for a slide behind so many others, with its first picture. -/
def projectorFor (viewer : Viewer) (size : Size) (s : Scene) (behind total : Nat)
    (fails : Nat → Bool) : Projector :=
  { chrome := .ofSlide s.slide.title behind total viewer, size, fails : Projector }.redraw

/-- The show of some slides on a screen; nothing if there are none. -/
def begin? (pace : Pace) (viewer : Viewer) (size : Size) (slides : List Slide)
    (fails : Nat → Nat → Bool := fun _ _ => false) : Option Show :=
  match slides.map (Scene.ofSlide pace) with
  | [] => none
  | scene :: ahead => some {
      pace, viewer, scene, ahead, fails
      projector := projectorFor viewer size scene 0 slides.length (fails 0)
      stage := .typing scene.run.acts 0 }

/-- How many slides there are. -/
def total (s : Show) : Nat :=
  s.behind + 1 + s.ahead.length

/-- The show at its end. -/
def finish (s : Show) : Show :=
  { s with stage := .over .finished }

/-- The show with the next slide on, or at its end if there is none. -/
def advance (s : Show) : Show :=
  match s.ahead with
  | [] => s.finish
  | scene :: ahead => { s with
      behind := s.behind + 1
      scene, ahead
      projector :=
        projectorFor s.viewer s.projector.size scene (s.behind + 1) s.total (s.fails (s.behind + 1))
      stage := .typing scene.run.acts 0 }

/-- The show when it looks whether a failure to draw was kept: with one it is over, and without one
it goes on. -/
def unlessUndrawn (s : Show) (next : Show → Show) : Show :=
  match s.projector.takeFailure with
  | (some attempt, projector) => { s with projector, stage := .over (.undrawn attempt) }
  | (none, _) => next s

/-- The show with what the log gets for the slide that is on, if this is how it came out. -/
def report (s : Show) (o : Outcome Sheet) : Show :=
  { s with log := s.log ++ (warnings s.scene.slide.body).map Log.ofWarning ++
      Log.ofRun (tokensToPlay s.scene.slide.body).length o ++
      Log.ofPlayed (s.behind + 1) o.final.summary o.halt }

/-- The show in a phase. -/
def setPhase (s : Show) (phase : Phase) : Show :=
  { s with projector := s.projector.setPhase phase }

/-- The show with a new picture. -/
def redraw (s : Show) : Show :=
  { s with projector := s.projector.redraw }

/-! ## The player -/

/-- One step of typing. -/
def typeOn (s : Show) (waits : Nat) : List Act → Show
  | [] =>
    let s := s.report s.scene.run
    if s.scene.run.halt.isSome then { s with stage := .over .overflow }
    else s.unlessUndrawn fun s => { s with stage := .draining }
  | .wait delay :: acts =>
    if s.cancelled then (s.report (s.scene.cutAt s.pace waits)).unlessUndrawn finish
    else { s with stage := .resting delay acts waits }
  | act :: acts => { s with projector := act.onto s.projector, stage := .typing acts waits }

/-- What comes behind a slide that has been typed, when the queue is empty. -/
def rest (s : Show) : Show :=
  if s.ahead.isEmpty then { s.setPhase .done with stage := .lingering }
  else match s.viewer.advance with
    | .key => { s.setPhase .waiting with stage := .waiting }
    | .auto => { s.setPhase .advancing with stage := .holding (.ofMillis s.viewer.gapMillis) }

/-- What comes out of the queue: the first thing in it, or that it is closed. -/
def receive? (s : Show) : Option (Option Input × Show) :=
  match s.queue with
  | input :: queue => some (some input, { s with queue })
  | [] => if s.reader = .gone then some (none, s) else none

/-- The player's next step, if there is one that it need not wait for. -/
def act? (s : Show) : Option Show :=
  match s.stage with
  | .typing acts waits => some (s.typeOn waits acts)
  | .resting _ _ waits =>
    if s.cancelled then some ((s.report (s.scene.cutAt s.pace waits)).unlessUndrawn finish)
    else none
  | .draining =>
    match s.queue with
    | _ :: queue => some { s with queue }
    | [] => some s.rest
  | .waiting => s.receive?.map fun (input, s) =>
    match input with
    | some .advance => s.unlessUndrawn advance
    | some .quit | none => s.unlessUndrawn finish
    | some .redraw => s.redraw
    | some .other => s
  | .holding _ => if s.cancelled then some (s.unlessUndrawn finish) else none
  | .lingering => s.receive?.map fun (input, s) =>
    match input with
    | some .redraw => s.redraw
    | _ => s.unlessUndrawn finish
  | .over _ => none

/-- What the player waits for, if it waits for the clock. Nobody waits any more for what is cancelled,
not even if the delay is over at the same time. -/
def delay? (s : Show) : Option Delay :=
  if s.cancelled then none
  else match s.stage with
    | .resting delay _ _ => some delay
    | .holding gap => some gap
    | _ => none

/-- What happens when the delay that the player waits for is over. -/
def tick? (s : Show) : Option Show :=
  if s.cancelled then none
  else match s.stage with
    | .resting _ acts waits => some { s with stage := .typing acts (waits + 1) }
    | .holding _ => some (s.unlessUndrawn advance)
    | _ => none

/-! ## The reader -/

/-- The reader's next step, if there is one that it need not wait for. -/
def relay? (s : Show) : Option Show :=
  match s.reader with
  | .listening | .gone => none
  | .cancelling => some { s with cancelled := true, reader := .sending .quit }
  | .sending input => some { s with
      queue := s.queue ++ [input]
      reader := if input = .quit then .closing else .listening }
  | .closing => some { s with reader := .gone }

/-- The reader takes what somebody, or the screen, wants. -/
def read? (s : Show) (input : Input) : Option Show :=
  if s.reader = .listening then
    some { s with reader := if input = .quit then .cancelling else .sending input }
  else none

/-- The screen takes another size, and is empty until something is drawn. -/
def resize (s : Show) (size : Size) : Show :=
  { s with projector := { s.projector with size, picture := none } }

/-! ## Moves -/

/-- One of the things that can happen next. -/
inductive Move where
  /-- the reader takes an input -/
  | read (input : Input)
  /-- the reader does its next step -/
  | relay
  /-- the player does its next step -/
  | act
  /-- the delay that the player waits for is over -/
  | tick
  /-- the screen takes another size -/
  | resize (size : Size)
  deriving DecidableEq, Repr

/-- The show after a move, if the move is possible. -/
def move? (s : Show) : Move → Option Show
  | .read input => s.read? input
  | .relay => s.relay?
  | .act => s.act?
  | .tick => s.tick?
  | .resize size => some (s.resize size)

/-- The show after moves in a row, if each of them is possible. -/
def moves? : List Move → Show → Option Show
  | [], s => some s
  | move :: moves, s => (s.move? move).bind (moves? moves)

/-- What is on the screen while the show lasts. -/
def picture? (s : Show) : Option Picture :=
  match s.stage with
  | .over _ => none
  | _ => some (s.projector.picture.getD (Screen.empty s.projector.size))

/-- How the show ended, if it has. -/
def ending? (s : Show) : Option Ending :=
  match s.stage with
  | .over ending => some ending
  | _ => none

end Show

end Typist
