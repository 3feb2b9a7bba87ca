import Typist.Proofs.Run.Region
import Typist.Proofs.Run.Replay
import Typist.Proofs.Run.Visible

/-!
# No empty shells

A scope can be emptied by an erasure, or be empty when it is closed, and two parts of a run see to it
that it is taken off then. Between them they leave no container behind that shows nothing: what hangs
from the root and is not an open scope has a visible glyph below it.

* `Sheet.ShowsBelow` — a visible glyph hangs somewhere below a node;
* `Sheet.Full.exists_glyph` — on a sheet without empty containers each way down ends at a glyph;
* `Run.Behind.tidy` — wherever a run can be looked at, only its open scopes may be empty;
* `typeTokens_noShells` — that no empty shell is left behind.
-/

namespace Typist

/-- A scope of a forest is a scope of one of its trees. -/
theorem Tree.mem_insidesAll {inside : List Tree} {ts : List Tree} :
    inside ∈ insidesAll ts ↔ ∃ t ∈ ts, inside ∈ t.insides := by
  induction ts with
  | nil => simp [insidesAll]
  | cons t ts ih => simp [insidesAll, ih]

namespace Sheet

variable {s : Sheet} {X : Node → Prop}

/-- A visible glyph hangs somewhere below a node that hangs from the root. -/
def ShowsBelow (s : Sheet) (n : Node) : Prop :=
  ∃ u value tags within around, (u, value, tags) ∈ s.glyphs ∧ s.Hangs (u :: (within ++ n :: around))

/-- A node that something hangs from, and that hangs somewhere itself, is a container. -/
theorem Sound.exists_tag (hs : Sound s) {n p q : Node} (hn : s.parent? n = some p)
    (hp : s.parent? p = some q) : ∃ tag, s.tag? p = some tag := by
  have hroot := hs.kind_ne (lt_size_of_parent? hp) (hs.ne_root hp)
  have hglyph := Run.kind_ne_of_parent? hs hn
  cases hk : s.kind p with
  | root => exact absurd hk hroot
  | glyph value => exact absurd hk (hglyph value)
  | container tag => exact ⟨tag, tag?_eq_some_iff.2 hk⟩

/-- On the way up from a node there are only containers. -/
theorem Hangs.exists_tags (hs : Sound s) {n : Node} {around : List Node}
    (h : s.Hangs (n :: around)) : ∃ tags : List Tag, around.map s.tag? = tags.map some := by
  induction around generalizing n with
  | nil => exact ⟨[], rfl⟩
  | cons p around ih =>
    obtain ⟨tag, htag⟩ := hs.exists_tag h.1 h.2.1
    obtain ⟨tags, htags⟩ := ih h.2
    exact ⟨tag :: tags, congrArg₂ List.cons htag htags⟩

/-- A glyph that hangs from the root is visible. -/
theorem Hangs.mem_glyphs (hs : Sound s) {u : Node} {value : Char} {around : List Node}
    (h : s.Hangs (u :: around)) (hk : s.kind u = .glyph value) :
    ∃ tags, (u, value, tags) ∈ s.glyphs := by
  obtain ⟨tags, htags⟩ := h.exists_tags hs
  exact ⟨tags, (mem_glyphs_iff hs).2 ⟨hk, around, h, htags⟩⟩

/-- Nodes that were hung from one another hang from one of them, or from the root. -/
theorem Leans.mem_of_parent? {ns : List Node} (h : s.Leans ns) {n p : Node} (hn : n ∈ ns)
    (hp : s.parent? n = some p) : p ∈ ns ∨ p = .root := by
  induction ns with
  | nil => cases hn
  | cons m ns ih =>
    rcases List.mem_cons.1 hn with rfl | hn
    · have hup : p = ns.headD .root := h.1.2.2 p hp
      cases ns with
      | nil => exact .inr hup
      | cons q ns => exact .inl (hup ▸ List.mem_cons_of_mem _ List.mem_cons_self)
    · exact (ih h.2 hn).imp_left (List.mem_cons_of_mem _)

/-- Below a container that is no exception there is a glyph, if nothing below it is one either: its
first child is a glyph or such a container again, and newer. -/
theorem Full.exists_glyph (h : s.Full X) (hs : Sound s)
    (hup : ∀ n p, X n → s.parent? n = some p → X p ∨ p = .root) {n : Node} {around : List Node}
    (hn : s.Hangs (n :: around)) (hk : ∀ value, s.kind n ≠ .glyph value) (hX : ¬X n) :
    ∃ u value within, s.kind u = .glyph value ∧ s.Hangs (u :: (within ++ n :: around)) := by
  generalize hleft : s.size - n = left
  induction left using Nat.strongRecOn generalizing n around with
  | ind left ih =>
    obtain ⟨m, hm⟩ := List.exists_mem_of_ne_nil _ (h n _ hn.1 hk hX)
    have hm := hs.mem_iff.1 hm
    have hlt : m < s.size := lt_size_of_parent? hm
    have hnewer : n < m := hs.older hm
    have hbelow : s.Hangs (m :: n :: around) := ⟨hm, hn⟩
    have hmX : ¬X m := fun hmX => (hup m n hmX hm).elim hX (hs.ne_root hn.1)
    cases hkm : s.kind m with
    | root => exact absurd hkm (hs.kind_ne hlt (hs.ne_root hm))
    | glyph value => exact ⟨m, value, [], hkm, hbelow⟩
    | container tag =>
      have hcontainer (value : Char) : s.kind m ≠ .glyph value := by simp [hkm]
      obtain ⟨u, value, within, hu, hhangs⟩ :=
        ih (s.size - m) (by grind) hbelow hcontainer hmX rfl
      refine ⟨u, value, within ++ [m], hu, ?_⟩
      rwa [List.append_assoc]

/-- What hangs somewhere shows something. -/
theorem Sound.exists_treeAt? (hs : Sound s) {n p : Node} (hn : s.parent? n = some p) (depth : Nat) :
    ∃ t, s.treeAt? depth n = some t := by
  have hroot := hs.kind_ne (lt_size_of_parent? hn) (hs.ne_root hn)
  unfold treeAt?
  cases hk : s.kind n with
  | root => exact absurd hk hroot
  | glyph value => exact ⟨_, rfl⟩
  | container tag => exact ⟨_, rfl⟩

/-- Where no container is empty, none is read as an empty scope. -/
theorem Full.insides_ne_nil (h : s.Full fun _ => False) (hs : Sound s) (depth : Nat) {n : Node}
    (hdepth : s.size ≤ n + depth) :
    ∀ inside ∈ Tree.insidesAll (s.forestBelow depth n), inside ≠ [] := by
  induction depth generalizing n with
  | zero =>
    intro inside hmem
    cases hmem
  | succ depth ih =>
    intro inside hmem
    obtain ⟨t, ht, hmem⟩ := Tree.mem_insidesAll.1 hmem
    obtain ⟨child, hchild, ht⟩ := List.mem_filterMap.1 ht
    have hp := hs.mem_children_iff.1 hchild
    have hnewer : n < child := hs.older hp
    have hdepth' : s.size ≤ child + depth := by grind
    cases hk : s.kind child with
    | root =>
      rw [hk] at ht
      cases ht
    | glyph value =>
      rw [hk] at ht
      cases ht
      cases hmem
    | container tag =>
      rw [hk] at ht
      cases ht
      rcases List.mem_cons.1 hmem with rfl | hmem
      · -- the container has a child, and there is a level left to read it at
        obtain ⟨m, hm⟩ := List.exists_mem_of_ne_nil _ (h child n hp (by simp [hk]) not_false)
        have hmp := hs.mem_iff.1 hm
        have hlt : child < m := hs.older hmp
        have hsize : m < s.size := lt_size_of_parent? hmp
        obtain ⟨depth, rfl⟩ : ∃ d, depth = d + 1 := Nat.exists_eq_add_of_le' (by grind)
        obtain ⟨tree, htree⟩ := hs.exists_treeAt? hmp depth
        rw [forestBelow_succ]
        exact List.ne_nil_of_mem (List.mem_filterMap.2 ⟨m, List.mem_reverse.2 hm, htree⟩)
      · exact ih hdepth' inside hmem

end Sheet

namespace Run

variable {pace : Pace} {cancel : Cancel} {done : List Stroke} {r : Run Sheet}

/-- Wherever a run can be looked at, only its open scopes may be empty. -/
theorem Behind.tidy (h : Behind pace (.begin pace cancel .blank) done r) : Tidy r := by
  rcases h with ⟨rfl, rfl⟩ | ⟨before, x, q, rfl, hq, hw⟩
  · exact tidy_begin pace cancel
  · have hshaped := (shaped_strikeAll (shaped_begin _ _) (follows_begin _ _) hq).1
    have htidy := (tidy_begin pace cancel).strikeAll (shaped_begin _ _) hq
    exact (htidy.made hshaped x).of_waits hw

/-- Nothing on the sheet of a run is empty but what is still open. -/
structure NoShells (r : Run Sheet) : Prop where
  /-- below a container that hangs from the root and is not an open scope there is a visible glyph -/
  shows : ∀ n tag, r.surface.kind n = .container tag → r.surface.attached? n = some true →
    n ∉ r.scopes → r.surface.ShowsBelow n
  /-- when no scope is open, no scope that is seen is empty, at whatever depth -/
  settled : r.scopes = [] → ∀ inside ∈ Tree.insidesAll r.surface.forest, inside ≠ []

/-- A run that keeps its sheet tidy leaves no empty shell. -/
theorem Tidy.noShells (h : Tidy r) (hr : Shaped r) : NoShells r where
  shows := by
    intro n tag hk hroot hopen
    have hcontainer (value : Char) : r.surface.kind n ≠ .glyph value := by simp [hk]
    have hlt : n < r.surface.size := Sheet.lt_size_of_kind (by simp [hk])
    rcases (Sheet.attached?_eq_some_true_iff hr.sound hlt).1 hroot with rfl | ⟨around, hn⟩
    · rw [hr.sound.root] at hk
      cases hk
    · obtain ⟨u, value, within, hu, hhangs⟩ := Sheet.Full.exists_glyph h hr.sound
        (fun _ _ hmem hp => hr.leans.mem_of_parent? hmem hp) hn hcontainer hopen
      obtain ⟨tags, hvisible⟩ := hhangs.mem_glyphs hr.sound hu
      exact ⟨u, value, tags, within, around, hvisible, hhangs⟩
  settled := by
    intro hopen
    have hfull : r.surface.Full fun _ => False :=
      Sheet.Full.mono h fun n hn => List.not_mem_nil (hopen ▸ hn)
    exact hfull.insides_ne_nil hr.sound _ (Nat.le_add_left _ _)

theorem Behind.noShells (h : Behind pace (.begin pace cancel .blank) done r) : NoShells r :=
  h.tidy.noShells h.account.1

end Run

/-- **No empty shell is left behind**, at any suspension point of a run on a blank sheet, and where the
run ends. -/
theorem typeTokens_noShells (pace : Pace) (cancel : Cancel) (ts : List Token) :
    (typeTokens pace cancel ts Sheet.blank).final.NoShells ∧
      ∀ p ∈ stopsOf pace ts Sheet.blank, p.run.NoShells := by
  constructor
  · obtain ⟨done, rest, -, hend, -⟩ :=
      Run.exists_behind_of_strikeAll pace (.begin pace cancel Sheet.blank) (script ts)
    have hout : typeTokens pace cancel ts Sheet.blank =
        .ofStep ((Run.begin pace cancel Sheet.blank).strikeAll pace (script ts)) :=
      typeTokens_eq pace cancel ts Sheet.blank
    rw [hout, Outcome.final_ofStep]
    exact hend.noShells
  · intro p hp
    obtain ⟨before, x, after, q, -, hq, hw⟩ := Run.behind_of_mem_stops hp
    have hbehind : Run.Behind pace (.begin pace .never Sheet.blank) (before ++ [x]) p.run :=
      .inr ⟨before, x, _, rfl, hq, hw⟩
    exact hbehind.noShells

end Typist
