import Typist.Proofs.Sheet.Reading

/-!
# Taking off what is empty

Erasing a character and closing scopes come to the same for a sheet: nodes from which nothing hangs
are taken off, one after the other, and each of them may be empty only because of those before it.

* `Sheet.Sheds` — one sheet comes from another like this, and the nodes that were taken off;
* `Sheet.Sheds.parent?_eq` — these nodes hang nowhere afterwards, and the others where they did;
* `Sheet.Hangs.shed` — what hangs from the root still does, unless it was itself taken off: on the
  way up from it no node was ever empty.
-/

namespace Typist

namespace Sheet

variable {s s' : Sheet}

/-! ## What stays as it is -/

/-- A way up stays one as long as all parents on it stay. -/
theorem Hangs.of_parent? {ns : List Node} (h : s.Hangs ns)
    (hp : ∀ n p, s.parent? n = some p → s'.parent? n = some p) : s'.Hangs ns := by
  induction ns with
  | nil => trivial
  | cons n ns ih => exact ⟨hp _ _ h.1, ih h.2⟩

/-- Nodes lean as they did if none of them was hung from anything new. -/
theorem Leans.of_parent? {ns : List Node} (h : s.Leans ns) (hsize : s.size ≤ s'.size)
    (hp : ∀ n p, n < s.size → s'.parent? n = some p → s.parent? n = some p) : s'.Leans ns := by
  induction ns with
  | nil => trivial
  | cons n ns ih =>
    obtain ⟨⟨hlt, hroot, hup⟩, hns⟩ := h
    exact ⟨⟨Nat.lt_of_lt_of_le hlt hsize, hroot, fun p h => hup p (hp n p hlt h)⟩, ih hns⟩

/-- What leans was made. -/
theorem Leans.lt_size {ns : List Node} (h : s.Leans ns) : ∀ n ∈ ns, n < s.size := by
  induction ns with
  | nil => simp
  | cons n ns ih =>
    rintro m (_ | ⟨_, hm⟩)
    · exact h.1.1
    · exact ih h.2 m hm

/-- The root leans on nothing. -/
theorem Leans.ne_root {ns : List Node} (h : s.Leans ns) : ∀ n ∈ ns, n ≠ .root := by
  induction ns with
  | nil => simp
  | cons n ns ih =>
    rintro m (_ | ⟨_, hm⟩)
    · exact h.1.2.1
    · exact ih h.2 m hm

/-- What is left of leaning nodes leans. -/
theorem Leans.of_append {ns ms : List Node} (h : s.Leans (ns ++ ms)) : s.Leans ms := by
  induction ns with
  | nil => exact h
  | cons n ns ih => exact ih h.2

/-- Nodes that were hung from one another, and all of which hang somewhere, hang from the root. -/
theorem Leans.hangs {ns : List Node} (h : s.Leans ns) (hp : ∀ n ∈ ns, s.parent? n ≠ none) :
    s.Hangs ns := by
  induction ns with
  | nil => trivial
  | cons n ns ih =>
    refine ⟨?_, ih h.2 fun m hm => hp m (List.mem_cons_of_mem _ hm)⟩
    cases hn : s.parent? n with
    | none => exact absurd hn (hp n List.mem_cons_self)
    | some p => rw [h.1.2.2 p hn]

/-- A new node that is hung up makes no node lean less. -/
theorem Leans.hang {ns : List Node} (h : s.Leans ns) {p : Node} {k : Kind} (hp : p < s.size) :
    (s.hang p k).Leans ns := by
  refine h.of_parent? (by rw [size_hang]; exact Nat.le_succ _) fun n q hn hq => ?_
  rwa [parent?_hang_of_lt hp hn] at hq

/-- A new node that is hung up cuts no way up. -/
theorem Hangs.hang {ns : List Node} (h : s.Hangs ns) {p : Node} {k : Kind} (hp : p < s.size) :
    (s.hang p k).Hangs ns := by
  refine h.of_parent? fun n q hq => ?_
  rwa [parent?_hang_of_lt hp (lt_size_of_parent? hq)]

/-! ## Shedding -/

/-- One sheet comes from another by taking off these nodes, in this order, each when nothing hung
from it. -/
inductive Sheds : Sheet → List Node → Sheet → Prop
  | refl (s : Sheet) : Sheds s [] s
  | step {s s' : Sheet} {p c : Node} {gone : List Node} (hp : s.parent? c = some p)
      (hempty : (s.slot c).lastFirst = []) (rest : Sheds (s.remove p c) gone s') :
      Sheds s (c :: gone) s'

namespace Sheds

variable {gone : List Node}

/-- Shedding keeps a sheet sound. -/
theorem sound (h : Sheds s gone s') (hs : Sound s) : Sound s' := by
  induction h with
  | refl s => exact hs
  | step hp hempty rest ih => exact ih (hs.remove hp)

/-- Nodes that are shed stay nodes. -/
theorem size_eq (h : Sheds s gone s') : s'.size = s.size := by
  induction h with
  | refl s => rfl
  | step hp hempty rest ih => rw [ih, size_remove]

/-- Nodes that are shed keep their kind, and so do the others. -/
theorem kind_eq (h : Sheds s gone s') (hs : Sound s) (n : Node) : s'.kind n = s.kind n := by
  induction h with
  | refl s => rfl
  | step hp hempty rest ih => rw [ih (hs.remove hp), hs.kind_remove hp]

theorem tag?_eq (h : Sheds s gone s') (hs : Sound s) (n : Node) : s'.tag? n = s.tag? n := by
  rw [tag?, tag?, h.kind_eq hs]

/-- What was taken off hangs nowhere, and what was not hangs where it did. -/
theorem parent?_eq (h : Sheds s gone s') (hs : Sound s) (n : Node) :
    s'.parent? n = if n ∈ gone then none else s.parent? n := by
  induction h with
  | refl s => simp
  | @step s s' p c gone hp hempty rest ih =>
    rw [ih (hs.remove hp), hs.parent?_remove hp]
    by_cases hn : n = c <;> by_cases hgone : n ∈ gone <;> simp [hn, hgone]

/-- What hangs somewhere afterwards was not shed, and hung there before. -/
theorem parent?_of_eq_some (h : Sheds s gone s') (hs : Sound s) {n p : Node}
    (hn : s'.parent? n = some p) : n ∉ gone ∧ s.parent? n = some p := by
  rw [h.parent?_eq hs] at hn
  split at hn
  · cases hn
  · exact ⟨‹_›, hn⟩

/-- Only what hung somewhere was taken off. -/
theorem parent?_ne_none (h : Sheds s gone s') (hs : Sound s) : ∀ n ∈ gone, s.parent? n ≠ none := by
  induction h with
  | refl s => simp
  | @step s s' p c gone hp hempty rest ih =>
    rintro n (_ | ⟨_, hn⟩)
    · rw [hp]
      simp
    · intro hnone
      refine ih (hs.remove hp) n hn ?_
      rw [hs.parent?_remove hp, hnone, ite_self]

/-- A node gets no new children when nodes are taken off. -/
theorem lastFirst_of_eq_nil (h : Sheds s gone s') (hs : Sound s) {n : Node}
    (hn : (s.slot n).lastFirst = []) : (s'.slot n).lastFirst = [] := by
  refine List.eq_nil_iff_forall_not_mem.2 fun m hm => ?_
  have hm := (h.parent?_of_eq_some hs ((h.sound hs).mem_iff.1 hm)).2
  rw [← hs.mem_iff, hn] at hm
  cases hm

/-- Nothing hangs from what was taken off. -/
theorem lastFirst_of_mem (h : Sheds s gone s') (hs : Sound s) :
    ∀ n ∈ gone, (s'.slot n).lastFirst = [] := by
  induction h with
  | refl s => simp
  | @step s s' p c gone hp hempty rest ih =>
    have hs' := hs.remove hp
    rintro n (_ | ⟨_, hn⟩)
    · refine rest.lastFirst_of_eq_nil hs' ?_
      rw [hs.lastFirst_remove hp, hempty]
      split <;> rfl
    · exact ih hs' n hn

/-- A place to hang nodes from is one afterwards. -/
theorem accepts {n : Node} (h : Sheds s gone s') (hs : Sound s) (hn : s.Accepts n) :
    s'.Accepts n := by
  induction h with
  | refl s => exact hn
  | step hp hempty rest ih => exact ih (hs.remove hp) (hn.remove hs hp)

end Sheds

theorem Leans.shed {gone ns : List Node} (hns : s.Leans ns) (h : Sheds s gone s') (hs : Sound s) :
    s'.Leans ns :=
  hns.of_parent? (Nat.le_of_eq h.size_eq.symm) fun _ _ _ hp => (h.parent?_of_eq_some hs hp).2

/-- On the way up from a node nothing is empty, so that taking off an empty node breaks no link. -/
theorem Hangs.remove {n p c : Node} {around : List Node} (hn : s.Hangs (n :: around))
    (hs : Sound s) (hp : s.parent? c = some p) (hempty : (s.slot c).lastFirst = []) (hne : n ≠ c) :
    (s.remove p c).Hangs (n :: around) := by
  induction around generalizing n with
  | nil => exact ⟨by rw [hs.parent?_remove hp, if_neg hne, hn.1], trivial⟩
  | cons a around ih =>
    refine ⟨by rw [hs.parent?_remove hp, if_neg hne, hn.1], ih hn.2 ?_⟩
    rintro rfl
    have hmem := hs.mem_iff.2 hn.1
    rw [List.headD_cons, hempty] at hmem
    cases hmem

/-- What hangs from the root does so still, if it was not taken off itself. -/
theorem Hangs.shed {n : Node} {gone around : List Node} (hn : s.Hangs (n :: around))
    (h : Sheds s gone s') (hs : Sound s) (hgone : n ∉ gone) : s'.Hangs (n :: around) := by
  induction h with
  | refl s => exact hn
  | step hp hempty rest ih =>
    rw [List.mem_cons, not_or] at hgone
    obtain ⟨hne, hgone⟩ := hgone
    exact ih (hn.remove hs hp hempty hne) (hs.remove hp) hgone

end Sheet

end Typist
