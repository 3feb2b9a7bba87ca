import Mathlib.Data.List.Sort
import Typist.Proofs.Sheet.Links

/-!
# Reading a sound sheet

What a sheet shows is read off from the root downwards, children in order. On a sound sheet one can
also start from the other end: a glyph shows if a climb from it gets to the root, its style is that
of the containers on the way, and the glyphs stand in the order in which they were made.

* `Sheet.Hangs` — nodes each of which hangs from the next one, the last one from the root;
* `Sheet.attached?_eq_some_true_iff` — what hangs from the root is what such a climb starts from;
* `Sheet.glyphsBelow`, `Sheet.mem_glyphs_iff`, `Sheet.glyphs_sorted` — the visible glyphs in order,
  which of them there are, and that this order is the one in which they were made;
* `Sheet.forestBelow_eq` — what hangs below a node can be read to any sufficient depth.
-/

namespace Typist

/-- The look of a glyph with these tags around it, the innermost first. -/
def Style.inside (tags : List Tag) : Style :=
  tags.foldr (fun tag style => style.under tag) .plain

@[simp] theorem Style.inside_cons (tag : Tag) (tags : List Tag) :
    Style.inside (tag :: tags) = (Style.inside tags).under tag := rfl

namespace Sheet

variable {s : Sheet}

/-! ## Climbing -/

/-- Each of these nodes hangs from the next one, and the last one from the root. -/
def Hangs (s : Sheet) : List Node → Prop
  | [] => True
  | n :: around => s.parent? n = some (around.headD .root) ∧ s.Hangs around

/-- Each of these nodes is a node that was hung from the next one, or from the root if it is the
last one, and that hangs there still or nowhere. -/
def Leans (s : Sheet) : List Node → Prop
  | [] => True
  | n :: around =>
    (n < s.size ∧ n ≠ .root ∧ ∀ p, s.parent? n = some p → p = around.headD .root) ∧ s.Leans around

theorem Hangs.length_lt (hs : Sound s) {n : Node} {around : List Node}
    (h : s.Hangs (n :: around)) : around.length < n := by
  induction around generalizing n with
  | nil => exact Node.root_lt (hs.ne_root h.1)
  | cons p around ih => exact Nat.lt_of_le_of_lt (ih h.2) (hs.older h.1)

/-- A node that hangs from the root does so in one way, and it is the way in which it was hung. -/
theorem Hangs.eq_of_leans (hs : Sound s) {n : Node} {around within : List Node}
    (h : s.Hangs (n :: around)) (hl : s.Leans (n :: within)) : around = within := by
  induction around generalizing n within with
  | nil =>
    have hp := hl.1.2.2 _ h.1
    cases within with
    | nil => rfl
    | cons q within => exact absurd hp.symm hl.2.1.2.1
  | cons p around ih =>
    have hp := hl.1.2.2 _ h.1
    cases within with
    | nil => exact absurd hp (hs.ne_root h.2.1)
    | cons q within =>
      cases hp
      rw [ih h.2 hl.2]

theorem reachesRoot?_eq_some_true_iff (hs : Sound s) {steps : Nat} {n : Node} (h : n < steps) :
    s.reachesRoot? steps n = some true ↔ n = .root ∨ ∃ around, s.Hangs (n :: around) := by
  induction steps generalizing n with
  | zero => exact absurd h (Nat.not_lt_zero n)
  | succ steps ih =>
    unfold reachesRoot?
    by_cases hroot : n = .root
    · simp [hroot]
    · rw [if_neg hroot]
      cases hp : s.parent? n with
      | none => simp [hroot, Hangs, hp]
      | some p =>
        have hlt := hs.older hp
        dsimp only
        rw [ih (by grind)]
        constructor
        · rintro (rfl | ⟨around, haround⟩)
          · exact .inr ⟨[], hp, trivial⟩
          · exact .inr ⟨p :: around, hp, haround⟩
        · rintro (rfl | ⟨around, hn, haround⟩)
          · exact absurd rfl hroot
          · rw [hp] at hn
            cases around with
            | nil => exact .inl (Option.some.inj hn)
            | cons q around =>
              cases hn
              exact .inr ⟨around, haround⟩

/-- A node hangs from the root if it is the root or a climb from it leads there. -/
theorem attached?_eq_some_true_iff (hs : Sound s) {n : Node} (h : n < s.size) :
    s.attached? n = some true ↔ n = .root ∨ ∃ around, s.Hangs (n :: around) :=
  reachesRoot?_eq_some_true_iff hs (Nat.lt_succ_of_lt h)

/-! ## The visible glyphs -/

/-- The glyphs below a node in order, `depth` levels down, each with its value and with the tags
around it; `tags` are those around the children of the node. -/
def glyphsBelow (s : Sheet) : (depth : Nat) → Node → List Tag → List (Node × Char × List Tag)
  | 0, _, _ => []
  | depth + 1, n, tags =>
    (s.children n).flatMap fun child =>
      match s.kind child with
      | .root => []
      | .glyph value => [(child, value, tags)]
      | .container tag => s.glyphsBelow depth child (tag :: tags)

/-- The visible glyphs in order. -/
def glyphs (s : Sheet) : List (Node × Char × List Tag) :=
  s.glyphsBelow s.size .root []

theorem spans_forestBelow (s : Sheet) (depth : Nat) (n : Node) (tags : List Tag) :
    Tree.spans (.inside tags) (s.forestBelow depth n) =
      (s.glyphsBelow depth n tags).map fun (_, value, tags) => (value, .inside tags) := by
  induction depth generalizing n tags with
  | zero => rfl
  | succ depth ih =>
    unfold forestBelow glyphsBelow
    induction s.children n with
    | nil => rfl
    | cons child children ihchildren =>
      rw [List.flatMap_cons, List.map_append, List.filterMap_cons, ← ihchildren]
      cases s.kind child with
      | root => rfl
      | glyph value => rfl
      | container tag =>
        dsimp only
        rw [Tree.spans, Tree.span, ← Style.inside_cons, ih]

/-- The spans are the visible glyphs, each in the look of its tags. -/
theorem spans_eq (s : Sheet) :
    s.spans = s.glyphs.map fun (_, value, tags) => (value, .inside tags) :=
  spans_forestBelow s s.size .root []

theorem Sound.mem_children_iff (hs : Sound s) {n child : Node} :
    child ∈ s.children n ↔ s.parent? child = some n := by
  rw [children, List.mem_reverse, hs.mem_iff]

/-- A glyph below a node hangs from it, or below a container that hangs from it. -/
theorem mem_glyphsBelow_succ (hs : Sound s) {depth : Nat} {n : Node} {tags : List Tag}
    {e : Node × Char × List Tag} :
    e ∈ s.glyphsBelow (depth + 1) n tags ↔
      ∃ child, s.parent? child = some n ∧
        ((∃ value, s.kind child = .glyph value ∧ e = (child, value, tags)) ∨
          ∃ tag, s.kind child = .container tag ∧ e ∈ s.glyphsBelow depth child (tag :: tags)) := by
  rw [glyphsBelow, List.mem_flatMap]
  refine exists_congr fun child => and_congr hs.mem_children_iff ?_
  cases s.kind child <;> simp

theorem mem_glyphsBelow_of_le (hs : Sound s) {depth depth' : Nat} {n : Node} {tags : List Tag}
    {e : Node × Char × List Tag} (h : e ∈ s.glyphsBelow depth n tags) (hle : depth ≤ depth') :
    e ∈ s.glyphsBelow depth' n tags := by
  induction depth generalizing depth' n tags with
  | zero => cases h
  | succ depth ih =>
    obtain ⟨depth', rfl⟩ := Nat.exists_eq_add_of_le' (Nat.le_trans (Nat.succ_pos depth) hle)
    obtain ⟨child, hp, hglyph | ⟨tag, hk, he⟩⟩ := (mem_glyphsBelow_succ hs).1 h
    · exact (mem_glyphsBelow_succ hs).2 ⟨child, hp, .inl hglyph⟩
    · exact (mem_glyphsBelow_succ hs).2
        ⟨child, hp, .inr ⟨tag, hk, ih he (Nat.le_of_succ_le_succ hle)⟩⟩

/-- What is read below a node is a glyph, hung up as its tags say. -/
theorem hangs_of_mem_glyphsBelow (hs : Sound s) {depth : Nat} {around : List Node}
    {tags : List Tag} {u : Node} {value : Char} {utags : List Tag} (h : s.Hangs around)
    (htags : around.map s.tag? = tags.map some)
    (hu : (u, value, utags) ∈ s.glyphsBelow depth (around.headD .root) tags) :
    s.kind u = .glyph value ∧
      ∃ uaround, s.Hangs (u :: uaround) ∧ uaround.map s.tag? = utags.map some := by
  induction depth generalizing around tags with
  | zero => cases hu
  | succ depth ih =>
    obtain ⟨child, hp, ⟨value', hk, he⟩ | ⟨tag, hk, he⟩⟩ := (mem_glyphsBelow_succ hs).1 hu
    · cases he
      exact ⟨hk, around, ⟨hp, h⟩, htags⟩
    · have hchild : s.Hangs (child :: around) := ⟨hp, h⟩
      refine ih hchild ?_ he
      rw [List.map_cons, tag?_eq_some_iff.2 hk, htags, List.map_cons]

/-- What is read below a node that hangs from the root is read below the root. -/
theorem mem_glyphsBelow_root (hs : Sound s) {depth : Nat} {around : List Node} {tags : List Tag}
    {e : Node × Char × List Tag} (h : s.Hangs around)
    (htags : around.map s.tag? = tags.map some)
    (he : e ∈ s.glyphsBelow depth (around.headD .root) tags) :
    e ∈ s.glyphsBelow (depth + around.length) .root [] := by
  induction around generalizing depth tags with
  | nil =>
    cases List.map_eq_nil_iff.1 htags.symm
    exact he
  | cons n around ih =>
    cases tags with
    | nil => cases htags
    | cons tag tags =>
      obtain ⟨htag, htags⟩ := List.cons.inj htags
      have hup : e ∈ s.glyphsBelow (depth + 1) (around.headD .root) tags :=
        (mem_glyphsBelow_succ hs).2 ⟨n, h.1, .inr ⟨tag, tag?_eq_some_iff.1 htag, he⟩⟩
      have hroot := ih h.2 htags hup
      rwa [Nat.add_right_comm] at hroot

/-- The visible glyphs are the glyphs from which a climb gets to the root. -/
theorem mem_glyphs_iff (hs : Sound s) {u : Node} {value : Char} {tags : List Tag} :
    (u, value, tags) ∈ s.glyphs ↔
      s.kind u = .glyph value ∧
        ∃ around, s.Hangs (u :: around) ∧ around.map s.tag? = tags.map some := by
  constructor
  · have hnone : s.Hangs [] := trivial
    exact hangs_of_mem_glyphsBelow hs hnone rfl
  · rintro ⟨hk, around, h, htags⟩
    have hu : (u, value, tags) ∈ s.glyphsBelow 1 (around.headD .root) tags :=
      (mem_glyphsBelow_succ hs).2 ⟨u, h.1, .inl ⟨value, hk, rfl⟩⟩
    refine mem_glyphsBelow_of_le hs (mem_glyphsBelow_root hs h.2 htags hu) ?_
    have hlt := h.length_lt hs
    have hsize := lt_size_of_parent? h.1
    grind

/-! ## The order of the visible glyphs -/

/-- What hangs from a node is older than the siblings behind that node. -/
theorem Sound.lt_sibling (hs : Sound s) {p n b u : Node} (hb : s.parent? b = some p) (hpn : p < n)
    (hnb : n < b) (hu : s.parent? u = some n) : u < b := by
  refine Nat.lt_of_not_le fun hle => ?_
  rcases Nat.lt_or_eq_of_le hle with hlt | rfl
  · exact absurd (hs.nested hb hu hnb hlt) (Nat.not_le_of_lt hpn)
  · rw [hb] at hu
    cases hu
    exact Nat.lt_irrefl _ hpn

/-- What is read below a node is newer than the node and older than the siblings behind it. -/
theorem lt_of_mem_glyphsBelow (hs : Sound s) {depth : Nat} {n : Node} {tags : List Tag}
    {e : Node × Char × List Tag} (he : e ∈ s.glyphsBelow depth n tags) :
    n < e.1 ∧ ∀ p b, s.parent? b = some p → p < n → n < b → e.1 < b := by
  induction depth generalizing n tags with
  | zero => cases he
  | succ depth ih =>
    obtain ⟨child, hp, ⟨value, -, rfl⟩ | ⟨tag, -, he⟩⟩ := (mem_glyphsBelow_succ hs).1 he
    · exact ⟨hs.older hp, fun p b hb hpn hnb => hs.lt_sibling hb hpn hnb hp⟩
    · obtain ⟨hlt, hbehind⟩ := ih he
      have hchild := hs.older hp
      refine ⟨Nat.lt_trans hchild hlt, fun p b hb hpn hnb => ?_⟩
      exact hbehind p b hb (Nat.lt_trans hpn hchild) (hs.lt_sibling hb hpn hnb hp)

theorem glyphsBelow_sorted (hs : Sound s) (depth : Nat) (n : Node) (tags : List Tag) :
    (s.glyphsBelow depth n tags).Pairwise fun e f => e.1 < f.1 := by
  induction depth generalizing n tags with
  | zero => exact List.Pairwise.nil
  | succ depth ih =>
    rw [glyphsBelow, List.pairwise_flatMap]
    refine ⟨?_, ?_⟩
    · intro child _
      cases s.kind child with
      | root => exact List.Pairwise.nil
      | glyph value => exact List.pairwise_singleton _ _
      | container tag => exact ih child _
    · have hsorted : (s.children n).Pairwise (· < ·) := List.pairwise_reverse.2 (hs.sorted n)
      refine hsorted.imp_of_mem fun {a b} ha hb hab e he f hf => ?_
      -- what is read at `a` is before `b`, and what is read at `b` is not
      have hlast : e.1 < b := by
        have hpa := hs.older (hs.mem_children_iff.1 ha)
        cases hk : s.kind a with
        | root => simp [hk] at he
        | glyph value =>
          simp only [hk, List.mem_singleton] at he
          rw [he]
          exact hab
        | container tag =>
          simp only [hk] at he
          exact (lt_of_mem_glyphsBelow hs he).2 n b (hs.mem_children_iff.1 hb) hpa hab
      have hfirst : b ≤ f.1 := by
        cases hk : s.kind b with
        | root => simp [hk] at hf
        | glyph value =>
          simp only [hk, List.mem_singleton] at hf
          rw [hf]
        | container tag =>
          simp only [hk] at hf
          exact Nat.le_of_lt (lt_of_mem_glyphsBelow hs hf).1
      exact Nat.lt_of_lt_of_le hlast hfirst

/-- The visible glyphs stand in the order in which they were made. -/
theorem glyphs_sorted (hs : Sound s) : s.glyphs.Pairwise fun e f => e.1 < f.1 :=
  glyphsBelow_sorted hs _ _ _

/-! ## How deep one has to read -/

theorem forestBelow_of_size_le {n : Node} (h : s.size ≤ n) (depth : Nat) :
    s.forestBelow depth n = [] := by
  cases depth with
  | zero => rfl
  | succ depth =>
    rw [forestBelow, children, slot_of_size_le h]
    rfl

/-- What hangs below a node can be read to any depth that the newer nodes cannot exceed. -/
theorem forestBelow_eq (hs : Sound s) {depth depth' : Nat} {n : Node} (h : s.size ≤ n + depth)
    (h' : s.size ≤ n + depth') : s.forestBelow depth n = s.forestBelow depth' n := by
  induction depth generalizing depth' n with
  | zero =>
    have hn : s.size ≤ n := h
    rw [forestBelow_of_size_le hn, forestBelow_of_size_le hn]
  | succ depth ih =>
    cases depth' with
    | zero =>
      have hn : s.size ≤ n := h'
      rw [forestBelow_of_size_le hn, forestBelow_of_size_le hn]
    | succ depth' =>
      rw [forestBelow, forestBelow]
      refine List.filterMap_congr fun child hchild => ?_
      have hlt := hs.older (hs.mem_children_iff.1 hchild)
      have hdepth : s.forestBelow depth child = s.forestBelow depth' child :=
        ih (by grind) (by grind)
      rw [hdepth]

end Sheet

end Typist
