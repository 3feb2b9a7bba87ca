import Typist.Screen.Wrap
import Typist.Settings

/-!
# Screens

What the player shows: the title of the slide on a colored bar, if it has one and titles are shown; the
typed text, with a cursor behind it until the slide is done; and a status line that tells the place of
the slide and what can be done. The text has what the other two leave, and at least one row. On a screen
of less than three rows the status line goes first, and then the title.

Each row is filled from the left. The lines of the text are wrapped (`wrap`); the title and the status
line are cut off at the right edge, and rows that are too many at the bottom. Control characters and
characters without width are not drawn.
-/

namespace Typist

/-- Where the player is within a slide. -/
inductive Phase where
  | typing
  /-- waiting for the key that starts the next slide -/
  | waiting
  /-- holding before the next slide starts by itself -/
  | advancing
  /-- the last slide has been typed -/
  | done
  deriving DecidableEq, Repr

/-- What the status line says can be done. -/
def Phase.hint : Phase → Text
  | .typing => "q to stop".toList
  | .waiting => "Space for next slide, q to quit".toList
  | .advancing => "next slide shortly, q to quit".toList
  | .done => "end, any key to exit".toList

/-- Everything on a screen but the typed text. -/
structure Chrome where
  /-- the title, if it is shown -/
  title : Option Text
  /-- the place of the slide, from one -/
  position : Nat
  /-- the number of slides -/
  total : Nat
  cursor : Text
  /-- the color of gray text -/
  gray : Color

/-- The chrome of a slide, the one behind `index` others. -/
def Chrome.ofSlide (title : Text) (index total : Nat) (v : Viewer) : Chrome where
  title := if v.showTitle && !title.isEmpty then some title else none
  position := index + 1
  total := total
  cursor := v.cursor
  gray := match v.gray? with
    | some c => .rgb c
    | none => .darkGray

/-- One place of a screen. -/
structure Cell where
  symbol : Text := [' ']
  look : Look := {}
  deriving DecidableEq, Repr

/-- A place with nothing in it. -/
def Cell.blank : Cell := {}

/-- The size of a screen in columns and rows. -/
structure Size where
  width : Nat
  height : Nat
  deriving DecidableEq, Repr

/-- The rows of a screen, each with its cells. -/
abbrev Picture := List (List Cell)

namespace Screen

/-- The rows of title, text and status. -/
structure Heights where
  title : Nat
  text : Nat
  status : Nat

/-- How a number of rows is shared out. -/
def heights (hasTitle : Bool) (height : Nat) : Heights :=
  let title := if hasTitle && 2 ≤ height then 1 else 0
  let status := if 2 ≤ height - title then 1 else 0
  { title, text := height - title - status, status }

/-- Whether a cluster is drawn. -/
def isDrawn (cluster : Text) : Bool :=
  !cluster.any (fun c => c.toNat < 0x20 || (0x7F ≤ c.toNat && c.toNat < 0xA0))

/-- The symbols of spans. -/
def symbols (spans : List Span) : List Symbol :=
  spans.flatMap fun s => (s.text.clusters.filter isDrawn).map (⟨·, s.look⟩)

/-- The symbols from the front of a line that so many columns have room for. -/
def fitting : (room : Nat) → List Symbol → List Symbol
  | _, [] => []
  | room, s :: ss => if room < s.columns then [] else s :: fitting (room - s.columns) ss

/-- A line that is cut off at the right edge. A symbol that is wider than a row is left out. -/
def cutOff (width : Nat) (ss : List Symbol) : List Symbol :=
  fitting width (ss.filter fun s => s.columns ≤ width)

/-- The cells that a symbol takes: none if it has no width, and `empty` ones behind the first one. -/
def cellsOf (empty : Cell) (s : Symbol) : List Cell :=
  if s.columns = 0 then []
  else { symbol := s.text, look := s.look } :: List.replicate (s.columns - 1) empty

/-- The cells of a row, filled up with `empty` ones. Of a wide symbol that hangs over the edge, the first
cell is drawn. -/
def fillRow (empty : Cell) (width : Nat) (ss : List Symbol) : List Cell :=
  (ss.flatMap (cellsOf empty) ++ List.replicate width empty).take width

/-- The look of the title bar. -/
def titleLook : Look := { bold := true, fg := some .black, bg := some .cyan }

/-- The row of the title. -/
def titleRow (width : Nat) (title : Text) : List Cell :=
  fillRow { look := titleLook } width
    (cutOff width (symbols [{ text := title.lines.headD [], look := titleLook }]))

/-- The row of the status line. -/
def statusRow (width : Nat) (c : Chrome) (phase : Phase) : List Cell :=
  fillRow .blank width <| cutOff width <| symbols [
    { text := decimal c.position ++ '/' :: decimal c.total,
      look := { bold := true, fg := some .cyan } },
    { text := " | ".toList, look := {} },
    { text := phase.hint, look := { fg := some .yellow } }]

/-- Lines with the cursor behind them. -/
def withCursor (cursor : Span) : List (List Span) → List (List Span)
  | [] => [[cursor]]
  | [line] => [line ++ [cursor]]
  | line :: lines => line :: withCursor cursor lines

/-- The rows of the typed text, before they are cut off. -/
def textRows (width : Nat) (c : Chrome) (spans : List (Char × Style)) (phase : Phase) :
    List (List Cell) :=
  let lines := styledLines c.gray spans
  let lines :=
    if phase = .done || c.cursor.isEmpty then lines
    else withCursor { text := c.cursor, look := { blink := true } } lines
  lines.flatMap fun line => (wrap width (symbols line)).map (fillRow .blank width)

/-- Exactly so many rows: some cut off, or empty ones added. -/
def fitRows (width height : Nat) (rows : List (List Cell)) : List (List Cell) :=
  rows.take height ++ List.replicate (height - rows.length) (List.replicate width .blank)

/-- The picture of a slide. -/
def render (size : Size) (c : Chrome) (spans : List (Char × Style)) (phase : Phase) : Picture :=
  let h := heights c.title.isSome size.height
  fitRows size.width h.title ((c.title.toList).map (titleRow size.width)) ++
    fitRows size.width h.text (textRows size.width c spans phase) ++
    fitRows size.width h.status [statusRow size.width c phase]

/-- A picture with nothing on it. -/
def empty (size : Size) : Picture :=
  List.replicate size.height (List.replicate size.width {})

/-- The text of a row, without the blanks at its end. -/
def rowText (row : List Cell) : Text :=
  ((row.flatMap (·.symbol)).reverse.dropWhile isBlank).reverse

/-- The texts of the rows of a picture. -/
def rowTexts (p : Picture) : List Text :=
  p.map rowText

end Screen

end Typist
