import Typist.Text.Blank
import Typist.Text.Lowercase

/-!
# Decks

A document is a deck of slides. A line whose trimmed text begins with the marker, in any case, is a
header: it opens a slide, with the trimmed line as its title, and the lines up to the next header are
the body. Lines in front of the first header are a slide without a title, unless they are all blank.
With an empty marker no line is a header.

Case is compared in the lower-case forms of the whole marker and the whole line.
-/

namespace Typist

/-- A titled piece of markup. -/
structure Slide where
  /-- the trimmed header, or nothing in front of the first header -/
  title : Text
  /-- the lines between the headers, as markup -/
  body : Text
  deriving DecidableEq, Repr

namespace Deck

/-- The marker of headers, if none is given. -/
def usualMarker : Text := "СЛАЙД".toList

/-- A text with a line feed for every line break of the other two kinds: a carriage return, alone or
in front of a line feed. -/
def unifyBreaks : Text → Text
  | [] => []
  | '\r' :: '\n' :: cs => '\n' :: unifyBreaks cs
  | '\r' :: cs => '\n' :: unifyBreaks cs
  | c :: cs => c :: unifyBreaks cs

/-- Whether a line opens a slide; the marker is given in lower case. -/
def isHeader (marker line : Text) : Bool :=
  !marker.isEmpty && marker.isPrefixOf line.trim.lowercase

/-- The lines in front of the first header, and the slides that the headers open. -/
def split (marker : Text) : List Text → List Text × List Slide
  | [] => ([], [])
  | line :: lines =>
    let (front, slides) := split marker lines
    if isHeader marker line then ([], ⟨line.trim, Text.unlines front⟩ :: slides)
    else (line :: front, slides)

/-- The slides of a document. -/
def slides (marker raw : Text) : List Slide :=
  let (front, slides) := split marker.lowercase (unifyBreaks raw).lines
  if front.all Text.isBlank then slides else ⟨[], Text.unlines front⟩ :: slides

end Deck

end Typist
