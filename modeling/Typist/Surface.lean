import Typist.Markup.Token

/-!
# Surfaces

What one types on. A surface makes nodes — glyphs, and containers for formatting scopes — and links
and unlinks them; it reports the parent of a node, how many children it has, and its tag. Nodes are
handles that the surface gives out; node `0` is the root, which is there from the start.

A run knows nothing more about what it types on, so that a sheet in memory and a screen that is
repainted after every change serve it alike.
-/

namespace Typist

/-- A handle of a node. -/
abbrev Node := Nat

/-- The node that everything visible hangs from. -/
def Node.root : Node := 0

/-- The operations of something that can be typed on. -/
class Surface (σ : Type) where
  /-- makes a glyph that hangs nowhere -/
  createGlyph : σ → Char → Node × σ
  /-- makes an empty container that hangs nowhere -/
  createContainer : σ → Tag → Node × σ
  /-- hangs a node below another one, behind the children that are there -/
  append : σ → (parent child : Node) → σ
  /-- takes a child off its parent -/
  remove : σ → (parent child : Node) → σ
  /-- the node that a node hangs from -/
  parent? : σ → Node → Option Node
  /-- the number of children -/
  childCount : σ → Node → Nat
  /-- the tag of a container -/
  tag? : σ → Node → Option Tag

end Typist
