import Typist.Settings.Color
import Typist.Sheet.Tree

/-!
# Styled lines

Typed characters come in order, each with a style, and are shown line by line. A line is a row of
spans, each of which holds as many neighbours of one style as there are.

* There is a line for no characters at all only if something else is to be shown; otherwise there is
  one more line than there are line feeds.
* A line feed belongs to no line, whatever its style.
-/

namespace Typist

/-- A color on a screen. -/
inductive Color where
  | black
  | cyan
  | yellow
  | darkGray
  | rgb (value : Rgb)
  deriving DecidableEq, Repr

/-- How characters look on a screen. -/
structure Look where
  bold : Bool := false
  italic : Bool := false
  blink : Bool := false
  /-- the color of the characters; none is the usual one -/
  fg : Option Color := none
  /-- the color behind them; none is the usual one -/
  bg : Option Color := none
  deriving DecidableEq, Repr

/-- The look of a style, where `gray` is the color of gray text. -/
def Style.look (gray : Color) (s : Style) : Look where
  bold := s.bold
  italic := s.italic
  fg := if s.gray then some gray else none

/-- Characters that look the same. -/
structure Span where
  text : Text
  look : Look
  deriving DecidableEq, Repr

/-- The lines of styled characters; no line feed belongs to one. -/
def splitLines : List (Char × Style) → List (List (Char × Style))
  | [] => [[]]
  | (c, s) :: rest =>
    if c = '\n' then [] :: splitLines rest
    else match splitLines rest with
      | [] => [[(c, s)]]
      | line :: lines => ((c, s) :: line) :: lines

/-- Neighbours of one style put together. -/
def styleRuns : List (Char × Style) → List (Text × Style)
  | [] => []
  | (c, s) :: rest =>
    match styleRuns rest with
    | [] => [([c], s)]
    | (t, u) :: runs => if s = u then (c :: t, s) :: runs else ([c], s) :: (t, u) :: runs

/-- Styled characters in lines of spans. -/
def styledLines (gray : Color) (spans : List (Char × Style)) : List (List Span) :=
  if spans.isEmpty then []
  else (splitLines spans).map fun line =>
    (styleRuns line).map fun (text, style) => { text, look := style.look gray }

end Typist
