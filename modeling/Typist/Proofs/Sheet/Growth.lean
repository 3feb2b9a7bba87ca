import Typist.Proofs.Sheet.Reachable

/-!
# A sheet on which a forest grows

A forest can be hung up below a node of a sheet, behind what hangs there, one node after another. What
there was stays as it was, and nothing of what is new is older than what there was; so what has been
hung up is not touched by what is hung up next to it later.

* `Tree.forest_induction` — induction over a forest, along its siblings and into its scopes;
* `Sheet.Shows` — nodes that show a forest;
* `Sheet.Grown` — a forest was hung up; `Grown.trans`, `Grown.glyph` and `Grown.scope`, how it was;
* `Sheet.Grown.forest_eq` — what has grown on a blank sheet is what the sheet shows.
-/

namespace Typist

/-- Induction over a forest, along its siblings and into its scopes. -/
@[elab_as_elim]
theorem Tree.forest_induction {P : List Tree → Prop} (nil : P [])
    (glyph : ∀ value ts, P ts → P (.glyph value :: ts))
    (scope : ∀ tag inside ts, P inside → P ts → P (.scope tag inside :: ts)) : ∀ ts, P ts
  | [] => nil
  | .glyph value :: ts => glyph value ts (forest_induction nil glyph scope ts)
  | .scope tag inside :: ts =>
    scope tag inside ts (forest_induction nil glyph scope inside)
      (forest_induction nil glyph scope ts)

namespace Sheet

/-! ## Nodes that show a forest -/

/-- The nodes show the forest, and neither they nor what hangs below them is older than `base`. -/
inductive Shows (s : Sheet) (base : Node) : List Node → List Tree → Prop
  | nil : Shows s base [] []
  | glyph {n ns value ts} (hle : base ≤ n) (hkind : s.kind n = .glyph value)
      (next : Shows s base ns ts) : Shows s base (n :: ns) (.glyph value :: ts)
  | scope {n ns tag inside ts} (hle : base ≤ n) (hkind : s.kind n = .container tag)
      (below : Shows s base (s.children n) inside) (next : Shows s base ns ts) :
      Shows s base (n :: ns) (.scope tag inside :: ts)

namespace Shows

variable {s t : Sheet} {base base' : Node} {ns ms : List Node} {as bs : List Tree}

theorem of_le (h : Shows s base ns as) (hle : base' ≤ base) : Shows s base' ns as := by
  induction h with
  | nil => exact .nil
  | glyph hbase hkind _ ih => exact .glyph (Nat.le_trans hle hbase) hkind ih
  | scope hbase hkind _ _ ihbelow ih => exact .scope (Nat.le_trans hle hbase) hkind ihbelow ih

theorem append (h : Shows s base ns as) (h' : Shows s base ms bs) :
    Shows s base (ns ++ ms) (as ++ bs) := by
  induction h with
  | nil => exact h'
  | glyph hbase hkind _ ih => exact .glyph hbase hkind ih
  | scope hbase hkind below _ _ ih => exact .scope hbase hkind below ih

theorem ne_nil (h : Shows s base ns as) (hne : as ≠ []) : ns ≠ [] := by
  cases h with
  | nil => exact absurd rfl hne
  | glyph | scope => exact List.cons_ne_nil _ _

/-- What is shown depends on no older nodes. -/
theorem congr (h : Shows s base ns as)
    (hkind : ∀ n, base ≤ n → n < s.size → t.kind n = s.kind n)
    (hchildren : ∀ n, base ≤ n → n < s.size → t.children n = s.children n) :
    Shows t base ns as := by
  induction h with
  | nil => exact .nil
  | @glyph n _ value _ hbase hn _ ih =>
    have hlt : n < s.size := lt_size_of_glyph hn
    exact .glyph hbase ((hkind n hbase hlt).trans hn) ih
  | @scope n _ tag _ _ hbase hn _ _ ihbelow ih =>
    have hlt : n < s.size := lt_size_of_kind (by rw [hn]; exact Kind.noConfusion)
    refine .scope hbase ((hkind n hbase hlt).trans hn) ?_ ih
    rw [hchildren n hbase hlt]
    exact ihbelow

/-- The forest is read off the nodes if one looks deep enough. -/
theorem exists_filterMap_eq (h : Shows s base ns as) :
    ∃ depth, ∀ d, depth ≤ d → ns.filterMap (s.treeAt? d) = as := by
  induction h with
  | nil => exact ⟨0, fun _ _ => rfl⟩
  | glyph _ hkind _ ih =>
    obtain ⟨depth, hdepth⟩ := ih
    refine ⟨depth, fun d hd => ?_⟩
    rw [List.filterMap_cons_some (by rw [treeAt?, hkind]), hdepth d hd]
  | @scope n _ tag inside _ _ hkind _ _ ihbelow ih =>
    obtain ⟨depth, hdepth⟩ := ihbelow
    obtain ⟨depth', hdepth'⟩ := ih
    refine ⟨max (depth + 1) depth', fun d hd => ?_⟩
    obtain ⟨d, rfl⟩ : ∃ k, d = k + 1 := Nat.exists_eq_add_of_le' (by omega)
    have hbelow : s.forestBelow (d + 1) n = inside := by
      rw [forestBelow_succ]
      exact hdepth d (by omega)
    rw [List.filterMap_cons_some (by rw [treeAt?, hkind]), hbelow, hdepth' (d + 1) (by omega)]

end Shows

/-! ## Growth -/

/-- A forest was hung up below a node, behind what hung there, and what was there was left as it
was. -/
structure Grown (s t : Sheet) (p : Node) (ts : List Tree) : Prop where
  size_le : s.size ≤ t.size
  kind_eq : ∀ n < s.size, t.kind n = s.kind n
  children_eq : ∀ n < s.size, n ≠ p → t.children n = s.children n
  children : ∃ new, t.children p = s.children p ++ new ∧ Shows t s.size new ts

section

variable {s t u : Sheet} {p : Node} {as bs : List Tree}

theorem children_hang {k : Kind} (hp : p < s.size) (n : Node) :
    (s.hang p k).children n = if n = p then s.children n ++ [s.size] else s.children n := by
  rw [Sheet.children, lastFirst_hang hp]
  split
  · exact List.reverse_cons
  · rfl

/-- Nothing hangs from a node that is not in use. -/
theorem children_size (s : Sheet) : s.children s.size = [] := by
  rw [Sheet.children, slot_of_size_le (Nat.le_refl _)]
  rfl

namespace Grown

theorem refl (s : Sheet) (p : Node) : Grown s s p [] :=
  ⟨Nat.le_refl _, fun _ _ => rfl, fun _ _ _ => rfl, [], (List.append_nil _).symm, .nil⟩

/-- One forest behind the other. -/
theorem trans (h : Grown s t p as) (h' : Grown t u p bs) (hp : p < s.size) :
    Grown s u p (as ++ bs) where
  size_le := Nat.le_trans h.size_le h'.size_le
  kind_eq n hn := (h'.kind_eq n (Nat.lt_of_lt_of_le hn h.size_le)).trans (h.kind_eq n hn)
  children_eq n hn hne :=
    (h'.children_eq n (Nat.lt_of_lt_of_le hn h.size_le) hne).trans (h.children_eq n hn hne)
  children := by
    obtain ⟨new, hnew, hshows⟩ := h.children
    obtain ⟨more, hmore, hshows'⟩ := h'.children
    refine ⟨new ++ more, by rw [hmore, hnew, List.append_assoc], .append ?_ (hshows'.of_le h.size_le)⟩
    -- the first forest stays, since it does not hold the node below which the second one is hung
    refine hshows.congr (fun n _ hn => h'.kind_eq n hn) fun n hle hn => h'.children_eq n hn ?_
    exact Nat.ne_of_gt (Nat.lt_of_lt_of_le hp hle)

theorem glyph (hp : p < s.size) (value : Char) :
    Grown s (s.hang p (.glyph value)) p [.glyph value] where
  size_le := by rw [size_hang]; exact Nat.le_succ _
  kind_eq n hn := kind_hang_of_lt hp hn
  children_eq n hn hne := by rw [children_hang hp, if_neg hne]
  children := by
    refine ⟨[s.size], by rw [children_hang hp, if_pos rfl], .glyph (Nat.le_refl _) ?_ .nil⟩
    rw [kind_hang hp, if_pos rfl]

/-- A scope is hung up first, and then what it holds. -/
theorem scope {tag : Tag} (hp : p < s.size)
    (h : Grown (s.hang p (.container tag)) t s.size as) : Grown s t p [.scope tag as] := by
  have hsize : (s.hang p (.container tag)).size = s.size + 1 := size_hang s p _
  have hlt (n : Node) (hn : n < s.size) : n < (s.hang p (.container tag)).size :=
    hsize ▸ Nat.lt_succ_of_lt hn
  obtain ⟨new, hnew, hshows⟩ := h.children
  rw [children_hang hp, if_neg (Nat.ne_of_gt hp), children_size, List.nil_append] at hnew
  refine ⟨?_, fun n hn => ?_, fun n hn hne => ?_, [s.size], ?_, ?_⟩
  · have hle := h.size_le
    omega
  · rw [h.kind_eq n (hlt n hn), kind_hang_of_lt hp hn]
  · rw [h.children_eq n (hlt n hn) (Nat.ne_of_lt hn), children_hang hp, if_neg hne]
  · rw [h.children_eq p (hlt p hp) (Nat.ne_of_lt hp), children_hang hp, if_pos rfl]
  · refine .scope (Nat.le_refl _) ?_ ?_ .nil
    · rw [h.kind_eq s.size (hsize ▸ Nat.lt_succ_self _), kind_hang hp, if_pos rfl]
    · rw [hnew]
      exact hshows.of_le (hsize ▸ Nat.le_succ _)

/-- **What has grown on a blank sheet is what the sheet shows.** -/
theorem forest_eq (h : Grown blank t .root as) (ht : t.Linked) : t.forest = as := by
  obtain ⟨new, hnew, hshows⟩ := h.children
  have hroot : t.children .root = new := hnew
  obtain ⟨depth, hdepth⟩ := hshows.exists_filterMap_eq
  rw [ht.forest_eq (max t.size depth + 1) (by omega), forestBelow_succ, hroot]
  exact hdepth _ (Nat.le_max_right _ _)

end Grown

end

end Sheet

end Typist
