import Typist.Sheet.Tree
import Typist.Surface

/-!
# Sheets

A sheet is a surface in memory: nodes in the order in which they were made, each with its parent and
its children. A node that is taken off its parent stays a node, with what hangs below it, and can be
hung up again.

* Hanging up a node that hangs somewhere takes it off there first. Nothing keeps a node from being
  hung below itself or below a glyph; what the root does not reach is not visible, and what hangs
  below a glyph, or below the root as a child of something, is not shown.
* Taking a child off a node that is not its parent changes nothing.
* Each change of the links raises the revision: hanging up by one, and by one more if the node had
  to be taken off first.

`Sheet.climb?` tells of a node whether it hangs from the root, by climbing from parent to parent for as
long as that takes. `Sheet.forest` is what the sheet shows. Its depth is bounded by the number of
nodes, because a path down from the root meets no node twice: each node has one parent, and below the
root comes no root.
-/

namespace Typist

/-- What a node is. -/
inductive Kind where
  | root
  | glyph (value : Char)
  | container (tag : Tag)
  deriving DecidableEq, Repr

/-- What a sheet knows about a node. -/
structure Slot where
  kind : Kind
  parent : Option Node := none
  /-- the children, the last one first -/
  lastFirst : List Node := []
  deriving DecidableEq, Repr

/-- Nodes with their links. -/
structure Sheet where
  /-- the nodes, each in the place of its handle -/
  slots : Array Slot
  /-- how many times a link was made or undone -/
  revision : Nat
  deriving DecidableEq, Repr

namespace Sheet

/-- A sheet with nothing on it. -/
def blank : Sheet where
  slots := #[{ kind := .root }]
  revision := 0

/-- The number of nodes. -/
def size (s : Sheet) : Nat := s.slots.size

/-- What is known about a node; a handle that is not in use is taken for a bare root. -/
def slot (s : Sheet) (n : Node) : Slot :=
  s.slots[n]?.getD { kind := .root }

/-- What a node is. -/
def kind (s : Sheet) (n : Node) : Kind := (s.slot n).kind

/-- The node that a node hangs from. -/
def parent? (s : Sheet) (n : Node) : Option Node := (s.slot n).parent

/-- The nodes that hang from a node, in order. -/
def children (s : Sheet) (n : Node) : List Node := (s.slot n).lastFirst.reverse

/-- The number of nodes that hang from a node. -/
def childCount (s : Sheet) (n : Node) : Nat := (s.slot n).lastFirst.length

/-- The tag of a container. -/
def tag? (s : Sheet) (n : Node) : Option Tag :=
  match s.kind n with
  | .container tag => some tag
  | .root | .glyph _ => none

/-- A sheet with one more node, and its handle. -/
def create (s : Sheet) (kind : Kind) : Node × Sheet :=
  (s.slots.size, { s with slots := s.slots.push { kind } })

/-- A sheet with another parent for a node. -/
def setParent (s : Sheet) (n : Node) (parent : Option Node) : Sheet :=
  { s with slots := s.slots.modify n fun slot => { slot with parent } }

/-- A sheet with other children for a node. -/
def mapChildren (s : Sheet) (n : Node) (f : List Node → List Node) : Sheet :=
  { s with slots := s.slots.modify n fun slot => { slot with lastFirst := f slot.lastFirst } }

/-- A sheet with its revision raised by one. -/
def revised (s : Sheet) : Sheet :=
  { s with revision := s.revision + 1 }

/-- Takes a child off a node, if it hangs there. -/
def remove (s : Sheet) (parent child : Node) : Sheet :=
  if child ∈ (s.slot parent).lastFirst then
    ((s.mapChildren parent (·.erase child)).setParent child none).revised
  else s

/-- Takes a node off its parent, if it has one. -/
def detach (s : Sheet) (child : Node) : Sheet :=
  match s.parent? child with
  | some parent => s.remove parent child
  | none => s

/-- Hangs a node below another one, as its last child. -/
def append (s : Sheet) (parent child : Node) : Sheet :=
  (((s.detach child).mapChildren parent (child :: ·)).setParent child (some parent)).revised

/-- What hangs below a node, `depth` levels down. -/
def forestBelow (s : Sheet) : (depth : Nat) → Node → List Tree
  | 0, _ => []
  | depth + 1, n =>
    (s.children n).filterMap fun child =>
      match s.kind child with
      | .root => none
      | .glyph value => some (.glyph value)
      | .container tag => some (.scope tag (s.forestBelow depth child))

/-- What the sheet shows. -/
def forest (s : Sheet) : List Tree :=
  s.forestBelow s.size .root

/-- The visible glyphs with their styles. -/
def spans (s : Sheet) : List (Char × Style) :=
  Tree.spans .plain s.forest

/-- The visible glyphs. -/
def text (s : Sheet) : Text :=
  s.spans.map Prod.fst

/-- The visible part as markup. -/
def markup (s : Sheet) : Text :=
  Tree.markups s.forest

/-- The number of visible containers, empty ones included. -/
def containerCount (s : Sheet) : Nat :=
  Tree.scopeCounts s.forest

/-- Whether the climb from a node, from parent to parent, gets to the root. Nobody counts the steps: on
a circle of parents the climb goes on for ever, and has no answer. -/
def climb? (s : Sheet) (n : Node) : Option Bool :=
  if n = .root then some true
  else match s.parent? n with
    | some parent => s |>.climb? parent
    | none => some false
partial_fixpoint

/-- Whether a climb of at most `steps` parents from a node gets to the root; nothing if it gets
neither there nor to an end. -/
def reachesRoot? (s : Sheet) : (steps : Nat) → Node → Option Bool
  | 0, _ => none
  | steps + 1, n =>
    if n = .root then some true
    else match s.parent? n with
      | some parent => s.reachesRoot? steps parent
      | none => some false

/-- Whether a node hangs from the root, in as many steps as a sheet can ask for. A node on a circle of
parents has no answer. -/
def attached? (s : Sheet) (n : Node) : Option Bool :=
  s.reachesRoot? (s.size + 1) n

instance : Surface Sheet where
  createGlyph s c := s.create (.glyph c)
  createContainer s tag := s.create (.container tag)
  append := append
  remove := remove
  parent? := parent?
  childCount := childCount
  tag? := tag?

/-! ## What each operation does to one node -/

theorem slot_create (s : Sheet) (k : Kind) (n : Node) :
    (s.create k).2.slot n = if n = s.size then { kind := k } else s.slot n := by
  by_cases h : n = s.slots.size
  · simp [create, slot, size, h]
  · simp [create, slot, size, Array.getElem?_push, h]

theorem slot_setParent (s : Sheet) (m : Node) (parent : Option Node) (n : Node) (h : m < s.size) :
    (s.setParent m parent).slot n = if n = m then { s.slot n with parent } else s.slot n := by
  have h' : m < s.slots.size := h
  by_cases hn : n = m
  · subst hn
    simp only [setParent, slot, Array.getElem?_modify, if_pos, Array.getElem?_eq_getElem h']
    rfl
  · simp [setParent, slot, Array.getElem?_modify, hn, Ne.symm hn]

theorem slot_mapChildren (s : Sheet) (m : Node) (f : List Node → List Node) (n : Node)
    (h : m < s.size) :
    (s.mapChildren m f).slot n =
      if n = m then { s.slot n with lastFirst := f (s.slot n).lastFirst } else s.slot n := by
  have h' : m < s.slots.size := h
  by_cases hn : n = m
  · subst hn
    simp only [mapChildren, slot, Array.getElem?_modify, if_pos, Array.getElem?_eq_getElem h']
    rfl
  · simp [mapChildren, slot, Array.getElem?_modify, hn, Ne.symm hn]

@[simp] theorem slot_revised (s : Sheet) (n : Node) : s.revised.slot n = s.slot n := rfl

@[simp] theorem size_setParent (s : Sheet) (m : Node) (parent : Option Node) :
    (s.setParent m parent).size = s.size := by
  simp [setParent, size]

@[simp] theorem size_mapChildren (s : Sheet) (m : Node) (f : List Node → List Node) :
    (s.mapChildren m f).size = s.size := by
  simp [mapChildren, size]

@[simp] theorem size_revised (s : Sheet) : s.revised.size = s.size := rfl

@[simp] theorem size_remove (s : Sheet) (parent child : Node) :
    (s.remove parent child).size = s.size := by
  simp only [remove]
  split <;> simp

@[simp] theorem size_detach (s : Sheet) (child : Node) : (s.detach child).size = s.size := by
  simp only [detach]
  split <;> simp

@[simp] theorem size_append (s : Sheet) (parent child : Node) :
    (s.append parent child).size = s.size := by
  simp [append]

end Sheet

end Typist
