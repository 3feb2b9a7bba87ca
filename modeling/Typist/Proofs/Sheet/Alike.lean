import Typist.Proofs.Sheet.Reading

/-!
# Sheets that are alike

A run names the nodes it makes by their handles, and the handles depend on what else is on the
sheet. A sheet with more on it is like one with less if the nodes of the latter can be found on it,
under other handles, with the same links. The root may have other children besides, in front of
those; whatever else is there is not linked with them.

* `shift` — how handles change: those from some point on move up;
* `Sheet.Alike` — one sheet is like the other, with the handles changed;
* `Sheet.Alike.hang`, `Sheet.Alike.remove` — they stay alike when both are changed in the same way;
* `Sheet.Alike.forest_eq` — without other children of the root they show the same.
-/

namespace Typist

/-- The handle of a node on a sheet that has `d` nodes more, made when there were `base` nodes. -/
def shift (base d : Nat) (n : Node) : Node :=
  if n < base then n else n + d

section

variable {base d : Nat} {n m : Node}

/-- Different handles stay different. -/
theorem shift_injective (base d : Nat) : Function.Injective (shift base d) := by
  intro n m h
  unfold shift at h
  grind

theorem shift_of_lt (h : n < base) : shift base d n = n := if_pos h

/-- Handles of nodes in front of the gap stay what they are. -/
theorem map_shift_of_lt {ns : List Node} (h : ∀ n ∈ ns, n < base) : ns.map (shift base d) = ns :=
  (List.map_congr_left fun n hn => shift_of_lt (h n hn)).trans (List.map_id' ns)

theorem shift_of_le (h : base ≤ n) : shift base d n = n + d := if_neg (Nat.not_lt_of_le h)

/-- A gap of no width changes no handle. -/
theorem shift_zero (base : Nat) (n : Node) : shift base 0 n = n := by
  unfold shift
  split <;> rfl

/-- The root stays the root. -/
theorem shift_root (h : 0 < base) : shift base d .root = .root :=
  shift_of_lt h

theorem shift_inj : shift base d n = shift base d m ↔ n = m :=
  (shift_injective base d).eq_iff

/-- Nothing but the root becomes the root. -/
theorem shift_eq_root_iff (h : 0 < base) : shift base d n = .root ↔ n = .root := by
  have hroot : shift base d .root = .root := shift_root h
  rw [← shift_inj (n := n) (m := .root), hroot]

/-- Handles in use become handles in use. -/
theorem shift_lt {size : Nat} (hn : n < size) : shift base d n < size + d := by
  unfold shift
  grind

end

namespace Sheet

/-- The second sheet is like the first one, with the handles changed and with `old` in front of the
children of the root. -/
structure Alike (base d : Nat) (old : List Node) (s t : Sheet) : Prop where
  pos : 0 < base
  base_le : base ≤ s.size
  size_eq : t.size = s.size + d
  kind_eq : ∀ n < s.size, t.kind (shift base d n) = s.kind n
  parent?_eq : ∀ n : Node, n < s.size → n ≠ .root →
    t.parent? (shift base d n) = (s.parent? n).map (shift base d)
  lastFirst_eq : ∀ n : Node, n < s.size → (t.slot (shift base d n)).lastFirst =
    (s.slot n).lastFirst.map (shift base d) ++ if n = .root then old else []

namespace Alike

variable {base d : Nat} {old : List Node} {s t : Sheet}

/-- A node of the first sheet is a node of the second one. -/
theorem lt_size (h : Alike base d old s t) {n : Node} (hn : n < s.size) :
    shift base d n < t.size := by
  rw [h.size_eq]
  exact shift_lt hn

/-- The next new node of the first sheet is the next new one of the second. -/
theorem shift_size (h : Alike base d old s t) : shift base d s.size = t.size := by
  rw [h.size_eq, shift_of_le h.base_le]

/-- Nodes that correspond have one tag. -/
theorem tag?_eq (h : Alike base d old s t) {n : Node} (hn : n < s.size) :
    t.tag? (shift base d n) = s.tag? n := by
  rw [tag?, tag?, h.kind_eq n hn]

/-- Apart from the root, whose other children are not counted, a node has as many children as its
like. -/
theorem childCount_eq (h : Alike base d old s t) {n : Node} (hn : n < s.size) (hroot : n ≠ .root) :
    t.childCount (shift base d n) = s.childCount n := by
  rw [childCount, childCount, h.lastFirst_eq n hn, if_neg hroot, List.append_nil, List.length_map]

/-- Sheets stay alike when a new node is hung up on both. -/
theorem hang (h : Alike base d old s t) {p : Node} (hp : p < s.size) (k : Kind) :
    Alike base d old (s.hang p k) (t.hang (shift base d p) k) where
  pos := h.pos
  base_le := by
    rw [size_hang]
    exact Nat.le_succ_of_le h.base_le
  size_eq := by
    rw [size_hang, size_hang, h.size_eq, Nat.add_right_comm]
  kind_eq := by
    intro n hn
    rw [kind_hang (h.lt_size hp), kind_hang hp, ← h.shift_size]
    simp only [shift_inj]
    split
    · rfl
    · rw [size_hang] at hn
      exact h.kind_eq n (by grind)
  parent?_eq := by
    intro n hn hroot
    rw [parent?_hang (h.lt_size hp), parent?_hang hp, ← h.shift_size]
    simp only [shift_inj]
    split
    · rfl
    · rw [size_hang] at hn
      exact h.parent?_eq n (by grind) hroot
  lastFirst_eq := by
    intro n hn
    rw [lastFirst_hang (h.lt_size hp), lastFirst_hang hp, ← h.shift_size]
    simp only [shift_inj]
    by_cases hlt : n < s.size
    · rw [h.lastFirst_eq n hlt]
      split <;> rfl
    · -- the new node has no children yet
      have hnew : n = s.size := by
        rw [size_hang] at hn
        grind
      have hpos := Nat.lt_of_lt_of_le h.pos h.base_le
      rw [if_neg (by grind), if_neg (by grind), slot_of_size_le (Nat.le_of_not_lt hlt),
        if_neg (hnew ▸ Nat.ne_of_gt hpos), hnew, h.shift_size, slot_of_size_le (Nat.le_refl _)]
      rfl

/-- Sheets stay alike when a node is taken off on both. -/
theorem remove (h : Alike base d old s t) (hs : Sound s) {p c : Node} (hc : s.parent? c = some p) :
    Alike base d old (s.remove p c) (t.remove (shift base d p) (shift base d c)) := by
  have hcs := lt_size_of_parent? hc
  have hps := hs.parent?_lt_size hc
  have hmem : shift base d c ∈ (t.slot (shift base d p)).lastFirst := by
    rw [h.lastFirst_eq p hps]
    exact List.mem_append_left _ (List.mem_map_of_mem (hs.mem_iff.2 hc))
  have hct := h.lt_size hcs
  refine ⟨h.pos, ?_, ?_, ?_, ?_, ?_⟩
  · rw [size_remove]
    exact h.base_le
  · rw [size_remove, size_remove, h.size_eq]
  · intro n hn
    rw [size_remove] at hn
    rw [kind_remove hmem hct, hs.kind_remove hc, h.kind_eq n hn]
  · intro n hn hroot
    rw [size_remove] at hn
    rw [parent?_remove hmem hct, hs.parent?_remove hc]
    simp only [shift_inj]
    split
    · rfl
    · exact h.parent?_eq n hn hroot
  · intro n hn
    rw [size_remove] at hn
    rw [lastFirst_remove hmem hct, hs.lastFirst_remove hc, h.lastFirst_eq n hn]
    simp only [shift_inj]
    split
    · rename_i hnp
      subst hnp
      rw [List.erase_append_left _ (List.mem_map_of_mem (hs.mem_iff.2 hc)),
        List.map_erase (shift_injective base d)]
    · rfl

/-- Below like nodes hangs the same, if the root has no other children. -/
theorem forestBelow_eq (h : Alike base d old s t) (hs : Sound s) (depth : Nat) {n : Node}
    (hn : n < s.size) (hold : n = .root → old = []) :
    t.forestBelow depth (shift base d n) = s.forestBelow depth n := by
  induction depth generalizing n with
  | zero => rfl
  | succ depth ih =>
    have hchildren : t.children (shift base d n) = (s.children n).map (shift base d) := by
      have hnone : (if n = .root then old else []) = [] := by
        split
        · exact hold ‹_›
        · rfl
      rw [children, children, h.lastFirst_eq n hn, hnone, List.append_nil, List.map_reverse]
    rw [forestBelow, forestBelow, hchildren, List.filterMap_map]
    refine List.filterMap_congr fun child hchild => ?_
    have hp := hs.mem_children_iff.1 hchild
    have hlt := lt_size_of_parent? hp
    have hbelow := ih hlt fun hroot => absurd hroot (hs.ne_root hp)
    rw [Function.comp_apply, h.kind_eq child hlt, hbelow]

/-- Sheets that are alike, and whose root has no other children, show the same. -/
theorem forest_eq (h : Alike base d [] s t) (hs : Sound s) : t.forest = s.forest := by
  have hroot := h.forestBelow_eq hs t.size (n := .root) hs.pos fun _ => rfl
  rw [shift_root h.pos] at hroot
  rw [forest, hroot, h.size_eq]
  exact Sheet.forestBelow_eq hs (by omega) (by omega)

/-- What is like a sheet that has no handle changed is like the first one. -/
theorem of_zero {u : Sheet} {base' : Nat} (h : Alike base' 0 [] u s) (h' : Alike base d old s t) :
    Alike base d old u t where
  pos := h'.pos
  base_le := by
    have hsize := h.size_eq
    have hbase := h'.base_le
    omega
  size_eq := by rw [h'.size_eq, h.size_eq, Nat.add_zero]
  kind_eq := by
    intro n hn
    have hkind := h.kind_eq n hn
    rw [shift_zero] at hkind
    rw [h'.kind_eq n (h.size_eq.symm ▸ hn), hkind]
  parent?_eq := by
    intro n hn hroot
    have hparent := h.parent?_eq n hn hroot
    rw [shift_zero, funext (shift_zero base'), Option.map_id'] at hparent
    rw [h'.parent?_eq n (h.size_eq.symm ▸ hn) hroot, hparent]
  lastFirst_eq := by
    intro n hn
    have hlast := h.lastFirst_eq n hn
    rw [shift_zero, funext (shift_zero base'), List.map_id', ite_self, List.append_nil] at hlast
    rw [h'.lastFirst_eq n (h.size_eq.symm ▸ hn), hlast]

/-- A sheet is like itself. -/
theorem refl (hs : Sound s) : Alike 1 0 [] s s where
  pos := Nat.one_pos
  base_le := hs.pos
  size_eq := rfl
  kind_eq := fun n _ => by rw [shift_zero]
  parent?_eq := fun n _ _ => by
    rw [shift_zero, funext (shift_zero 1)]
    exact Option.map_id'.symm
  lastFirst_eq := fun n _ => by
    rw [shift_zero, funext (shift_zero 1), List.map_id', ite_self, List.append_nil]

end Alike

end Sheet

end Typist
