import Mathlib.Data.List.Nodup
import Typist.Proofs.Sheet.Shedding

/-!
# Sheets that anyone has used

A run keeps the links of its sheet in order, but the sheet that it is given may have been used by
others, and its operations let them hang nodes below themselves, below glyphs, or the root below
another node. Of the order little is left then: that a child knows its parent, and that it hangs
there once. It is enough for reading, since reading goes down from the root and never meets the root
again, so that it comes to no node twice.

* `Sheet.Reachable` — the sheets that the operations make of a blank one;
* `Sheet.Linked`, `Sheet.Reachable.linked` — what is true of their links;
* `Sheet.Linked.forestBelow_eq` — a sheet is read to the end at the depth that it is read to, and to
  any greater one.
-/

namespace Typist

namespace Sheet

variable {s : Sheet}

/-- What the operations on sheets make of a blank one, used on nodes that there are. -/
inductive Reachable : Sheet → Prop
  | blank : Reachable blank
  | createGlyph {s : Sheet} (h : Reachable s) (value : Char) :
      Reachable (Surface.createGlyph s value).2
  | createContainer {s : Sheet} (h : Reachable s) (tag : Tag) :
      Reachable (Surface.createContainer s tag).2
  | append {s : Sheet} (h : Reachable s) {parent child : Node} (hparent : parent < s.size)
      (hchild : child < s.size) : Reachable (s.append parent child)
  | remove {s : Sheet} (h : Reachable s) {parent child : Node} (hparent : parent < s.size)
      (hchild : child < s.size) : Reachable (s.remove parent child)

/-- A child knows its parent, and hangs there once. -/
structure Linked (s : Sheet) : Prop where
  pos : 0 < s.size
  root : s.kind .root = .root
  mem_iff : ∀ {n p : Node}, n ∈ (s.slot p).lastFirst ↔ s.parent? n = some p
  nodup : ∀ p : Node, (s.slot p).lastFirst.Nodup

theorem Sound.linked (hs : Sound s) : Linked s :=
  ⟨hs.pos, hs.root, hs.mem_iff, fun p => (hs.sorted p).imp Nat.ne_of_gt⟩

/-! ## The operations -/

section

variable {p c : Node}

@[simp] theorem size_create (s : Sheet) (k : Kind) : (s.create k).2.size = s.size + 1 := by
  simp [create, size]

/-- A new node is bare, as a handle was before it was in use. -/
theorem slot_create_eq (s : Sheet) (k : Kind) (n : Node) :
    (s.create k).2.slot n = { s.slot n with kind := if n = s.size then k else s.kind n } := by
  rw [slot_create]
  split
  · rw [slot_of_size_le (Nat.le_of_eq ‹n = s.size›.symm)]
  · rfl

/-- A new node keeps the links of a sheet in order. -/
theorem Linked.create (h : Linked s) (k : Kind) : Linked (s.create k).2 where
  pos := by
    rw [size_create]
    exact Nat.succ_pos _
  root := by
    have hne : Node.root ≠ s.size := Nat.ne_of_lt h.pos
    rw [kind, slot_create_eq, if_neg hne, h.root]
  mem_iff := by
    intro n p
    rw [parent?, slot_create_eq, slot_create_eq]
    exact h.mem_iff
  nodup := by
    intro p
    rw [slot_create_eq]
    exact h.nodup p

/-- Taking a child off keeps the links of a sheet in order. -/
theorem Linked.remove (h : Linked s) (p c : Node) : Linked (s.remove p c) := by
  by_cases hmem : c ∈ (s.slot p).lastFirst
  · have hc := lt_size_of_parent? (h.mem_iff.1 hmem)
    refine ⟨by rw [size_remove]; exact h.pos, by rw [kind_remove hmem hc, h.root], ?_, ?_⟩
    · intro n q
      rw [parent?_remove hmem hc, lastFirst_remove hmem hc]
      have hp := h.mem_iff.1 hmem
      by_cases hq : q = p
      · rw [if_pos hq, (h.nodup q).mem_erase_iff, h.mem_iff]
        by_cases hn : n = c <;> simp [hn]
      · rw [if_neg hq, h.mem_iff]
        by_cases hn : n = c
        · simp [hn, hp, Ne.symm hq]
        · simp [hn]
    · intro q
      rw [lastFirst_remove hmem hc]
      split
      · exact (h.nodup q).erase c
      · exact h.nodup q
  · rwa [Sheet.remove, if_neg hmem]

/-- Before a node is hung up, it hangs nowhere. -/
theorem Linked.detach (h : Linked s) (c : Node) :
    Linked (s.detach c) ∧ (s.detach c).parent? c = none := by
  cases hp : s.parent? c with
  | none =>
    rw [Sheet.detach, hp]
    exact ⟨h, hp⟩
  | some p =>
    rw [Sheet.detach, hp]
    refine ⟨h.remove p c, ?_⟩
    rw [parent?_remove (h.mem_iff.2 hp) (lt_size_of_parent? hp), if_pos rfl]

theorem slot_append (hp : p < s.size) (hc : c < s.size) (n : Node) :
    (s.append p c).slot n =
      { kind := (s.detach c).kind n
        parent := if n = c then some p else (s.detach c).parent? n
        lastFirst := if n = p then c :: ((s.detach c).slot n).lastFirst
          else ((s.detach c).slot n).lastFirst } := by
  rw [append, slot_revised, slot_setParent _ _ _ _ (by simpa using hc),
    slot_mapChildren _ _ _ _ (by simpa using hp)]
  by_cases hn : n = c
  · rw [if_pos hn, if_pos hn]
    split <;> rfl
  · rw [if_neg hn, if_neg hn]
    split <;> rfl

/-- Hanging up a child keeps the links of a sheet in order, wherever it hung before. -/
theorem Linked.append (h : Linked s) (hp : p < s.size) (hc : c < s.size) :
    Linked (s.append p c) := by
  obtain ⟨hdetach, hnone⟩ := h.detach c
  refine ⟨by rw [size_append]; exact h.pos, by rw [kind, slot_append hp hc, hdetach.root], ?_, ?_⟩
  · intro n q
    rw [parent?, slot_append hp hc, slot_append hp hc]
    have hmem := hdetach.mem_iff (n := n) (p := q)
    by_cases hn : n = c
    · subst hn
      have hnot : n ∉ ((s.detach n).slot q).lastFirst := by rw [hmem, hnone]; simp
      by_cases hq : q = p
      · simp [hq]
      · simp [hq, hnot, Ne.symm hq]
    · by_cases hq : q = p <;> simp [hq, hn, hdetach.mem_iff]
  · intro q
    rw [slot_append hp hc]
    dsimp only
    split
    · refine List.nodup_cons.2 ⟨?_, hdetach.nodup q⟩
      rw [hdetach.mem_iff, hnone]
      exact Option.some_ne_none _ ∘ Eq.symm
    · exact hdetach.nodup q

/-- What the operations on sheets make has its links in order. -/
theorem Reachable.linked (h : s.Reachable) : Linked s := by
  induction h with
  | blank => exact sound_blank.linked
  | createGlyph _ value ih => exact ih.create _
  | createContainer _ tag ih => exact ih.create _
  | append _ hparent hchild ih => exact ih.append hparent hchild
  | remove _ _ _ ih => exact ih.remove _ _

/-- A new node is made and then hung up. -/
theorem Reachable.hang (h : s.Reachable) (hp : p < s.size) {k : Kind} (hk : k ≠ .root) :
    (s.hang p k).Reachable := by
  have hcreate : (s.create k).2.Reachable := by
    cases k with
    | root => exact absurd rfl hk
    | glyph value => exact h.createGlyph value
    | container tag => exact h.createContainer tag
  refine hcreate.append ?_ ?_
  · rw [size_create]
    exact Nat.lt_succ_of_lt hp
  · rw [size_create]
    exact Nat.lt_succ_self _

end

/-! ## The way up -/

theorem Hangs.of_append {ns ms : List Node} (h : s.Hangs (ns ++ ms)) : s.Hangs ms := by
  induction ns with
  | nil => exact h
  | cons n ns ih => exact ih h.2

/-- Each node has one way up to the first root on it. -/
theorem Hangs.eq_of_hangs {n : Node} {around around' : List Node} (h : s.Hangs (n :: around))
    (h' : s.Hangs (n :: around')) (hroot : .root ∉ around) (hroot' : .root ∉ around') :
    around = around' := by
  induction around generalizing n around' with
  | nil =>
    cases around' with
    | nil => rfl
    | cons q around' =>
      cases Option.some.inj (h.1.symm.trans h'.1)
      exact absurd List.mem_cons_self hroot'
  | cons p around ih =>
    cases around' with
    | nil =>
      cases Option.some.inj (h.1.symm.trans h'.1)
      exact absurd List.mem_cons_self hroot
    | cons q around' =>
      cases Option.some.inj (h.1.symm.trans h'.1)
      rw [ih h.2 h'.2 (fun hmem => hroot (List.mem_cons_of_mem _ hmem))
        fun hmem => hroot' (List.mem_cons_of_mem _ hmem)]

/-- A way up meets no node twice before the root. -/
theorem Hangs.nodup {ns : List Node} (h : s.Hangs ns) (hroot : .root ∉ ns) : ns.Nodup := by
  induction ns with
  | nil => exact List.nodup_nil
  | cons n ns ih =>
    have hrest : .root ∉ ns := fun hmem => hroot (List.mem_cons_of_mem _ hmem)
    refine List.nodup_cons.2 ⟨fun hmem => ?_, ih h.2 hrest⟩
    obtain ⟨below, above, rfl⟩ := List.append_of_mem hmem
    have hsame := h.eq_of_hangs h.2.of_append hrest
      fun hmem => hrest (List.mem_append_right _ (List.mem_cons_of_mem _ hmem))
    have hlength := congrArg List.length hsame
    rw [List.length_append, List.length_cons] at hlength
    omega

/-- All nodes of a way up are on the sheet. -/
theorem Hangs.lt_size {ns : List Node} (h : s.Hangs ns) : ∀ n ∈ ns, n < s.size := by
  induction ns with
  | nil => simp
  | cons n ns ih =>
    rintro m (_ | ⟨_, hm⟩)
    · exact lt_size_of_parent? h.1
    · exact ih h.2 m hm

/-- Different nodes of a sheet are no more than there are. -/
theorem length_le_size {ns : List Node} (hnodup : ns.Nodup) (hlt : ∀ n ∈ ns, n < s.size) :
    ns.length ≤ s.size := by
  have hsub : ns ⊆ List.range s.size := fun n hn => List.mem_range.2 (hlt n hn)
  have hle := (List.subperm_of_subset hnodup hsub).length_le
  rwa [List.length_range] at hle

/-- A way up that does not go through the root is shorter than the sheet. -/
theorem Hangs.length_lt_size {ns : List Node} (h : s.Hangs ns) (hpos : 0 < s.size)
    (hroot : .root ∉ ns) : ns.length < s.size := by
  refine length_le_size (List.nodup_cons.2 ⟨hroot, h.nodup hroot⟩) ?_
  rintro n (_ | ⟨_, hn⟩)
  · exact hpos
  · exact h.lt_size n hn

/-! ## Reading -/

/-- What a node shows, and what hangs below it, `depth` levels down. -/
def treeAt? (s : Sheet) (depth : Nat) (n : Node) : Option Tree :=
  match s.kind n with
  | .root => none
  | .glyph value => some (.glyph value)
  | .container tag => some (.scope tag (s.forestBelow depth n))

theorem forestBelow_succ (s : Sheet) (depth : Nat) (n : Node) :
    s.forestBelow (depth + 1) n = (s.children n).filterMap (s.treeAt? depth) := rfl

/-- Nodes of one kind show the same if the same hangs below them; below a root nothing is read. -/
theorem treeAt?_congr {t : Sheet} {n m : Node} {depth depth' : Nat} (hkind : t.kind m = s.kind n)
    (hbelow : s.kind n ≠ .root → t.forestBelow depth m = s.forestBelow depth' n) :
    t.treeAt? depth m = s.treeAt? depth' n := by
  rw [treeAt?, treeAt?, hkind]
  cases hk : s.kind n with
  | root => rfl
  | glyph value => rfl
  | container tag => rw [hbelow (by rw [hk]; exact Kind.noConfusion)]

theorem Linked.ne_root (h : Linked s) {n : Node} (hk : s.kind n ≠ .root) : n ≠ .root := by
  rintro rfl
  exact hk h.root

/-- What hangs below a node can be read to any depth that exceeds the sheet together with the way
up. -/
theorem Linked.forestBelow_eq (h : Linked s) {depth depth' : Nat} {around : List Node}
    (hup : s.Hangs around) (hroot : .root ∉ around) (hd : s.size ≤ depth + around.length)
    (hd' : s.size ≤ depth' + around.length) :
    s.forestBelow depth (around.headD .root) = s.forestBelow depth' (around.headD .root) := by
  have hlt := hup.length_lt_size h.pos hroot
  induction depth generalizing depth' around with
  | zero => omega
  | succ depth ih =>
    obtain ⟨depth', rfl⟩ : ∃ k, depth' = k + 1 := Nat.exists_eq_add_of_le' (by omega)
    rw [forestBelow_succ, forestBelow_succ]
    refine List.filterMap_congr fun child hchild => treeAt?_congr rfl fun hk => ?_
    have hp : s.parent? child = some (around.headD .root) :=
      h.mem_iff.1 (List.mem_reverse.1 hchild)
    have hbelow : s.Hangs (child :: around) := ⟨hp, hup⟩
    have hroot' : .root ∉ child :: around := by
      rw [List.mem_cons, not_or]
      exact ⟨(h.ne_root hk).symm, hroot⟩
    refine ih hbelow hroot' ?_ ?_ (hbelow.length_lt_size h.pos hroot')
    · rw [List.length_cons]
      omega
    · rw [List.length_cons]
      omega

/-- A sheet is read to its end. -/
theorem Linked.forest_eq (h : Linked s) (depth : Nat) (hd : s.size ≤ depth) :
    s.forest = s.forestBelow depth .root := by
  have hnone : s.Hangs [] := trivial
  exact h.forestBelow_eq hnone List.not_mem_nil (Nat.le_refl _) hd

end Sheet

end Typist
