import Typist.Pace
import Typist.Run.Cancel
import Typist.Run.Summary

/-!
# Runs

A run types a list of tokens on a surface, node by node, and asks for a wait after each character it
typed or erased, at each pause, and before it erases a region. Two things are kept while it lasts:

* the open scopes, the innermost first: what is typed hangs from the innermost one, or from the root;
* the ledger: the glyphs that were typed and not erased, the last one first.

A close is matched with the innermost open scope of its tag and closes all scopes inside that one
too; without a match it is ignored. Scopes that are empty when they are closed are taken off.

A region is typed like anything else, held, and erased: as many glyphs as the ledger has gained, from
its end. Erasing a glyph takes off the containers that it leaves empty, up to the root or to the
first one that still holds something. Such a container may be an open scope; what is typed into it
from then on hangs nowhere and does not show.

Cancellation is noticed only where a run waits: before a wait is asked for, and while it lasts. The
surface is then left as it is.
-/

namespace Typist

/-- Why a run ended before its tokens did. -/
inductive Halt where
  /-- it was cancelled -/
  | cancelled
  /-- a delay was too long to be one -/
  | overflow
  deriving DecidableEq, Repr

/-- A run in the middle of things. -/
structure Run (σ : Type) where
  /-- what it types on -/
  surface : σ
  /-- the open scopes, the innermost first -/
  scopes : List Node := []
  /-- the glyphs typed and not erased, the last one first -/
  ledger : List Node := []
  /-- where its draws come from -/
  generator : Generator
  /-- when it is to be cancelled -/
  cancel : Cancel := .never
  /-- what it has done, counted -/
  summary : Summary := {}
  /-- what it has done, the last act first -/
  history : List Act := []
  /-- what it has remarked, the last note first -/
  notes : List Note := []

/-- What comes of a step. -/
inductive Step (σ : Type) where
  /-- the run goes on -/
  | goes (r : Run σ)
  /-- the run has ended early -/
  | ends (halt : Halt) (r : Run σ)

/-- A step and, if the run goes on, another one. -/
def Step.andThen {σ : Type} (s : Step σ) (next : Run σ → Step σ) : Step σ :=
  match s with
  | .goes r => next r
  | .ends halt r => .ends halt r

namespace Run

variable {σ : Type} [Surface σ]

/-- The node that new nodes are hung from. -/
def current (r : Run σ) : Node :=
  r.scopes.headD .root

/-- A run with one more act in its history. -/
def did (r : Run σ) (act : Act) : Run σ :=
  { r with history := act :: r.history }

/-- A run with one more note. -/
def remark (r : Run σ) (note : Note) : Run σ :=
  { r with notes := note :: r.notes }

/-- A run with its counts changed. -/
def count (r : Run σ) (f : Summary → Summary) : Run σ :=
  { r with summary := f r.summary }

/-- Makes a glyph. -/
def createGlyph (r : Run σ) (c : Char) : Node × Run σ :=
  let (node, surface) := Surface.createGlyph r.surface c
  (node, { r with surface }.did (.glyph node c))

/-- Makes a container. -/
def createContainer (r : Run σ) (tag : Tag) : Node × Run σ :=
  let (node, surface) := Surface.createContainer r.surface tag
  (node, { r with surface }.did (.container node tag))

/-- Hangs up a node. -/
def append (r : Run σ) (parent child : Node) : Run σ :=
  { r with
    surface := Surface.append r.surface parent child
    cancel := r.cancel.pass .append }.did (.append parent child)

/-- Takes a node off. -/
def remove (r : Run σ) (parent child : Node) : Run σ :=
  { r with
    surface := Surface.remove r.surface parent child
    cancel := r.cancel.pass .remove }.did (.remove parent child)

/-- Waits, unless the run has been cancelled or is while it waits. A wait that is broken off counts
as asked for; one that never begins does not. -/
def suspend (delay : Delay) (r : Run σ) : Step σ :=
  if r.cancel = .fired then .ends .cancelled r
  else
    let r := (r.count fun s => { s with requested := s.requested + delay }).did (.wait delay)
    let cancel := (r.cancel.pass .request).elapse delay
    if cancel = .fired then .ends .cancelled { r with cancel }
    else .goes { r with cancel := cancel.pass .wake }

/-- Waits for a delay that was drawn. -/
def suspendDrawn (drawn : Option Delay × Generator) (r : Run σ) : Step σ :=
  match drawn.1 with
  | none => .ends .overflow r
  | some delay => suspend delay { r with generator := drawn.2 }

/-- Types one character. -/
def typeChar (pace : Pace) (c : Char) (r : Run σ) : Step σ :=
  let (node, r) := r.createGlyph c
  let r := r.append r.current node
  let r := { r with ledger := node :: r.ledger }.count fun s => { s with typed := s.typed + 1 }
  r.suspendDrawn (pace.typingDelay r.generator)

/-- Types characters in order. -/
def typeText (pace : Pace) : Text → Run σ → Step σ
  | [], r => .goes r
  | c :: cs, r => (r.typeChar pace c).andThen (typeText pace cs)

/-- Opens a scope. -/
def openScope (tag : Tag) (r : Run σ) : Run σ :=
  let (node, r) := r.createContainer tag
  let r := r.append r.current node
  { r with scopes := node :: r.scopes }

/-- The scopes that a close of a tag closes, the innermost first, and those that stay open. -/
def closing? (s : σ) (tag : Tag) : List Node → Option (List Node × List Node)
  | [] => none
  | node :: nodes =>
    if Surface.tag? s node = some tag then some ([node], nodes)
    else (closing? s tag nodes).map fun (closed, kept) => (node :: closed, kept)

/-- Takes a node off if nothing hangs from it. -/
def removeIfEmpty (r : Run σ) (node : Node) : Run σ :=
  if 0 < Surface.childCount r.surface node then r
  else match Surface.parent? r.surface node with
    | some parent => r.remove parent node
    | none => r

/-- Closes the innermost open scope of a tag, and those inside it. -/
def closeScope (tag : Tag) (r : Run σ) : Run σ :=
  match closing? r.surface tag r.scopes with
  | none =>
    (r.remark (.ignoredClose tag)).count fun s => { s with ignoredCloses := s.ignoredCloses + 1 }
  | some (closed, kept) => closed.foldl removeIfEmpty { r with scopes := kept }

/-- Takes a node off if it is empty and not the root, and then its parent in the same way, at most
`steps` nodes up. -/
def prune : (steps : Nat) → Node → Run σ → Run σ
  | 0, _, r => r
  | steps + 1, node, r =>
    if node = .root || 0 < Surface.childCount r.surface node then r
    else match Surface.parent? r.surface node with
      | some parent => prune steps parent (r.remove parent node)
      | none => r

/-- Takes the glyph off that was typed last, and the containers that it leaves empty. On the way up
to the root lie only nodes that this run has made, each by an act of its own. -/
def takeOff (node : Node) (r : Run σ) : Run σ :=
  match Surface.parent? r.surface node with
  | some parent => prune (r.history.length + 1) parent (r.remove parent node)
  | none => r

/-- Erases the character that was typed last, if there is one. -/
def eraseChar (pace : Pace) (r : Run σ) : Step σ :=
  match r.ledger with
  | [] => .goes r
  | node :: ledger =>
    let r := { r with ledger }.takeOff node
    let r := r.count fun s => { s with erased := s.erased + 1 }
    r.suspendDrawn (pace.erasingDelay r.generator)

/-- Erases so many characters. -/
def eraseChars (pace : Pace) : Nat → Run σ → Step σ
  | 0, r => .goes r
  | n + 1, r => (r.eraseChar pace).andThen (eraseChars pace n)

/-- Takes a pause. -/
def pause (millis : UInt64) (r : Run σ) : Step σ :=
  (r.count fun s => { s with pauses := s.pauses + 1 }).suspend (.ofMillis millis)

/-- Enters a region of so many tokens. -/
def enterRegion (tokens : Nat) (r : Run σ) : Run σ :=
  (r.count fun s => { s with regions := s.regions + 1 }).remark (.typingRegion tokens)

/-- Erases what a region has typed; the ledger had `before` glyphs when it was entered. -/
def eraseRegion (pace : Pace) (before : Nat) (r : Run σ) : Step σ :=
  let units := r.ledger.length - before
  (r.remark (.erasingRegion units)).eraseChars pace units

mutual

/-- Plays a token. -/
def play (pace : Pace) : Token → Run σ → Step σ
  | .text value, r => r.typeText pace value
  | .pause millis, r => r.pause millis
  | .scopeStart tag, r => .goes (r.openScope tag)
  | .scopeEnd tag, r => .goes (r.closeScope tag)
  | .delete inner, r =>
    ((playAll pace inner (r.enterRegion inner.length)).andThen
      (suspend (.ofMillis pace.hold))).andThen
      (eraseRegion pace r.ledger.length)

/-- Plays tokens in order. -/
def playAll (pace : Pace) : List Token → Run σ → Step σ
  | [], r => .goes r
  | t :: ts, r => (play pace t r).andThen (playAll pace ts)

end

/-- A run that has not begun. -/
def begin (pace : Pace) (cancel : Cancel) (surface : σ) : Run σ where
  surface := surface
  generator := pace.generator
  cancel := cancel

end Run

/-- How a run came out: why it ended early, if it did, and its last state. -/
structure Outcome (σ : Type) where
  halt : Option Halt
  final : Run σ

/-- The outcome of a last step. -/
def Outcome.ofStep {σ : Type} : Step σ → Outcome σ
  | .goes r => ⟨none, r⟩
  | .ends halt r => ⟨some halt, r⟩

/-- Types tokens on a surface. -/
def typeTokens {σ : Type} [Surface σ] (pace : Pace) (cancel : Cancel) (tokens : List Token)
    (surface : σ) : Outcome σ :=
  .ofStep (Run.playAll pace tokens (.begin pace cancel surface))

namespace Outcome

variable {σ : Type}

/-- The delays that were asked for, in order. -/
def delays (o : Outcome σ) : List Delay :=
  (o.final.history.filterMap Act.delay?).reverse

/-- The acts of the run, in order. -/
def acts (o : Outcome σ) : List Act :=
  o.final.history.reverse

/-- The notes of the run, in order. -/
def notes (o : Outcome σ) : List Note :=
  o.final.notes.reverse

/-- What to say when a run was cancelled. -/
def cancelledText (s : Summary) : Text :=
  "typing run cancelled after ".toList ++ decimal s.typed ++ " typed and ".toList ++
    decimal s.erased ++ " deleted characters".toList

/-- The nanoseconds that the run takes on a clock that wakes on whole milliseconds, if it was to be
cancelled after `cancelAt` milliseconds. -/
def elapsedNanos (o : Outcome σ) (cancelAt : Option Nat) : Nat :=
  match o.halt, cancelAt with
  | some .cancelled, some millis => millis * nanosPerMilli
  | _, _ => o.delays.foldr (Delay.wakeMillis · + ·) 0 * nanosPerMilli

end Outcome

end Typist
