import Typist.Markup.Token

/-!
# What a sheet shows

The visible part of a sheet is a forest of glyphs and formatting scopes. Everything that is read off
a sheet is read off this forest:

* `Tree.spans` — the glyphs in order, each with the style of the scopes around it;
* `Tree.markups` — the forest as markup, each scope between its tags;
* `Tree.scopeCount` — the number of scopes, empty ones included.
-/

namespace Typist

/-- How a glyph looks. -/
structure Style where
  bold : Bool := false
  italic : Bool := false
  /-- muted color -/
  gray : Bool := false
  deriving DecidableEq, Repr

namespace Style

/-- The look of a glyph outside every scope. -/
def plain : Style := {}

/-- A style with one more tag around it. -/
def under (s : Style) : Tag → Style
  | .bold => { s with bold := true }
  | .italic => { s with italic := true }
  | .gray => { s with gray := true }

end Style

/-- A glyph, or a formatting scope with what it holds. -/
inductive Tree where
  | glyph (value : Char)
  | scope (tag : Tag) (inside : List Tree)

namespace Tree

mutual

/-- The glyphs of a tree with their styles, where `style` is the style around the tree. -/
def span (style : Style) : Tree → List (Char × Style)
  | .glyph value => [(value, style)]
  | .scope tag inside => spans (style.under tag) inside

/-- The glyphs of a forest with their styles. -/
def spans (style : Style) : List Tree → List (Char × Style)
  | [] => []
  | t :: ts => t.span style ++ spans style ts

end

mutual

/-- A tree as markup. -/
def markup : Tree → Text
  | .glyph value => [value]
  | .scope tag inside => tag.opening ++ markups inside ++ tag.closing

/-- A forest as markup. -/
def markups : List Tree → Text
  | [] => []
  | t :: ts => t.markup ++ markups ts

end

mutual

/-- The number of scopes in a tree. -/
def scopeCount : Tree → Nat
  | .glyph _ => 0
  | .scope _ inside => 1 + scopeCounts inside

/-- The number of scopes in a forest. -/
def scopeCounts : List Tree → Nat
  | [] => 0
  | t :: ts => t.scopeCount + scopeCounts ts

end

theorem spans_append (style : Style) (as bs : List Tree) :
    spans style (as ++ bs) = spans style as ++ spans style bs := by
  induction as with
  | nil => simp [spans]
  | cons a as ih => simp [spans, ih]

end Tree

end Typist
