import Mathlib.Logic.Relation
import Typist.Proofs.Sheet.Reachable

/-!
# Walks through a sheet

What a sheet shows is read by going through the children of the root, and through those of each
container on the way. Nobody counts the steps of such a walk, and the links may run in circles; but
where a child knows its parent, and hangs there once, the walk from the root comes to no node twice,
and so it comes to an end.

* `Visit`, `Sheet.Walks` — what is come upon, and the walk through a list of nodes;
* `Tree.Told`, `Sheet.Linked.exists_walk` — the walk from the root ends, and tells the forest that the
  sheet shows;
* `Sheet.Walks.nodup` — it comes to no node twice;
* `Sheet.Edit`, `Sheet.Consistent` — one use of the operations on sheets, and what none of them breaks;
* `Sheet.consistent_of_edits` — that a sheet stays consistent, whatever the operations are used for,
  and that its revision tells its links.
-/

namespace Typist

/-- What is come upon in a walk. -/
inductive Visit where
  | glyph (node : Node) (value : Char)
  /-- a container, the children of which come next -/
  | enter (node : Node) (tag : Tag)
  /-- the end of a container -/
  | leave (node : Node) (tag : Tag)
  /-- the root, which is passed by where it hangs from a node -/
  | pass (node : Node)
  deriving DecidableEq, Repr

namespace Visit

/-- The node that is come upon. -/
def seen? : Visit → Option Node
  | .glyph node _ | .enter node _ | .pass node => some node
  | .leave _ _ => none

/-- The container that is entered. -/
def entered? : Visit → Option Node
  | .enter node _ => some node
  | .glyph _ _ | .leave _ _ | .pass _ => none

/-- The glyph that is read. -/
def value? : Visit → Option Char
  | .glyph _ value => some value
  | .enter _ _ | .leave _ _ | .pass _ => none

/-- What is written of a visit. -/
def markup : Visit → Text
  | .glyph _ value => [value]
  | .enter _ tag => tag.opening
  | .leave _ tag => tag.closing
  | .pass _ => []

/-- The glyphs that are read, each with the style of the containers that are entered and not left then,
those around the first visit included. -/
def spans : (around : List Tag) → List Visit → List (Char × Style)
  | _, [] => []
  | around, .glyph _ value :: vs => (value, .inside around) :: spans around vs
  | around, .enter _ tag :: vs => spans (tag :: around) vs
  | around, .leave _ _ :: vs => spans around.tail vs
  | around, .pass _ :: vs => spans around vs

/-- What is come upon in a container comes between the container and what is behind it. -/
theorem seen_scope (n : Node) (tag : Tag) (us vs : List Visit) :
    (.enter n tag :: (us ++ .leave n tag :: vs)).filterMap seen? =
      n :: (us.filterMap seen? ++ vs.filterMap seen?) :=
  congrArg (n :: ·) List.filterMap_append

theorem entered_scope (n : Node) (tag : Tag) (us vs : List Visit) :
    (.enter n tag :: (us ++ .leave n tag :: vs)).filterMap entered? =
      n :: (us.filterMap entered? ++ vs.filterMap entered?) :=
  congrArg (n :: ·) List.filterMap_append

theorem entered_sublist_seen (vs : List Visit) :
    (vs.filterMap entered?).Sublist (vs.filterMap seen?) := by
  induction vs with
  | nil => exact .refl _
  | cons v vs ih =>
    cases v with
    | enter node tag => exact ih.cons_cons node
    | glyph node value => exact ih.cons node
    | pass node => exact ih.cons node
    | leave node tag => exact ih

theorem map_fst_spans (around : List Tag) (vs : List Visit) :
    (spans around vs).map Prod.fst = vs.filterMap value? := by
  induction vs generalizing around with
  | nil => rfl
  | cons v vs ih =>
    cases v with
    | glyph node value => exact congrArg (value :: ·) (ih around)
    | enter node tag => exact ih (tag :: around)
    | leave node tag => exact ih around.tail
    | pass node => exact ih around

end Visit

/-! ## Visits that tell a forest -/

/-- Visits come upon the glyphs and scopes of a forest, in order. -/
inductive Tree.Told : List Tree → List Visit → Prop
  | nil : Told [] []
  | pass (node : Node) {ts vs} (rest : Told ts vs) : Told ts (.pass node :: vs)
  | glyph (node : Node) (value : Char) {ts vs} (rest : Told ts vs) :
      Told (.glyph value :: ts) (.glyph node value :: vs)
  | scope (node : Node) (tag : Tag) {inside ts us vs} (below : Told inside us) (rest : Told ts vs) :
      Told (.scope tag inside :: ts) (.enter node tag :: (us ++ .leave node tag :: vs))

namespace Tree.Told

variable {ts : List Tree} {vs : List Visit}

theorem markups_eq (h : Told ts vs) : markups ts = vs.flatMap Visit.markup := by
  induction h with
  | nil => rfl
  | pass node rest ih => exact ih
  | glyph node value rest ih => exact congrArg (value :: ·) ih
  | scope node tag below rest ihbelow ih =>
    simp [markups, markup, Visit.markup, ihbelow, ih]

theorem scopeCounts_eq (h : Told ts vs) : scopeCounts ts = (vs.filterMap Visit.entered?).length := by
  induction h with
  | nil => rfl
  | pass node rest ih => exact ih
  | glyph node value rest ih => exact (Nat.zero_add _).trans ih
  | @scope node tag inside ts us vs below rest ihbelow ih =>
    change 1 + scopeCounts inside + scopeCounts ts = _
    rw [Visit.entered_scope, List.length_cons, List.length_append, ihbelow, ih]
    omega

/-- What is told in between has left all that it has entered. -/
theorem spans_append (h : Told ts vs) (around : List Tag) (ws : List Visit) :
    Visit.spans around (vs ++ ws) = Tree.spans (.inside around) ts ++ Visit.spans around ws := by
  induction h generalizing around ws with
  | nil => rfl
  | pass node rest ih => exact ih around ws
  | glyph node value rest ih => exact congrArg ((value, Style.inside around) :: ·) (ih around ws)
  | scope node tag below rest ihbelow ih =>
    rw [List.cons_append, List.append_assoc, Visit.spans, ihbelow, List.cons_append, Visit.spans,
      List.tail_cons, ih, Tree.spans, Tree.span, Style.inside_cons, List.append_assoc]

end Tree.Told

namespace Sheet

variable {s t : Sheet}

/-! ## Walks -/

/-- The walk through a list of nodes, and through the children of each container that is come upon. -/
inductive Walks (s : Sheet) : List Node → List Visit → Prop
  | nil : Walks s [] []
  | pass {n : Node} {ns vs} (h : s.kind n = .root) (rest : Walks s ns vs) :
      Walks s (n :: ns) (.pass n :: vs)
  | glyph {n : Node} {value : Char} {ns vs} (h : s.kind n = .glyph value) (rest : Walks s ns vs) :
      Walks s (n :: ns) (.glyph n value :: vs)
  | scope {n : Node} {tag : Tag} {ns us vs} (h : s.kind n = .container tag)
      (below : Walks s (s.children n) us) (rest : Walks s ns vs) :
      Walks s (n :: ns) (.enter n tag :: (us ++ .leave n tag :: vs))

/-- There is one walk only. -/
theorem Walks.unique {ns : List Node} {vs vs' : List Visit} (h : s.Walks ns vs)
    (h' : s.Walks ns vs') : vs = vs' := by
  induction h generalizing vs' with
  | nil =>
    cases h'
    rfl
  | pass hk rest ih =>
    cases h' with
    | pass _ rest' => rw [ih rest']
    | glyph hk' _ | scope hk' _ _ => cases hk.symm.trans hk'
  | glyph hk rest ih =>
    cases h' with
    | glyph hk' rest' =>
      cases hk.symm.trans hk'
      rw [ih rest']
    | pass hk' _ | scope hk' _ _ => cases hk.symm.trans hk'
  | scope hk below rest ihbelow ih =>
    cases h' with
    | scope hk' below' rest' =>
      cases hk.symm.trans hk'
      rw [ihbelow below', ih rest']
    | pass hk' _ | glyph hk' _ => cases hk.symm.trans hk'

/-- A list of nodes is walked through if the children of each container of it are. -/
theorem exists_walk_of_forall (depth : Nat) {ns : List Node}
    (h : ∀ n ∈ ns, s.kind n ≠ .root →
      ∃ us, s.Walks (s.children n) us ∧ Tree.Told (s.forestBelow depth n) us) :
    ∃ vs, s.Walks ns vs ∧ Tree.Told (ns.filterMap (s.treeAt? depth)) vs := by
  induction ns with
  | nil => exact ⟨[], .nil, .nil⟩
  | cons n ns ih =>
    obtain ⟨vs, hwalk, htold⟩ := ih fun m hm => h m (List.mem_cons_of_mem _ hm)
    cases hk : s.kind n with
    | root =>
      have htree : s.treeAt? depth n = none := by rw [treeAt?, hk]
      rw [List.filterMap_cons_none htree]
      exact ⟨.pass n :: vs, .pass hk hwalk, .pass n htold⟩
    | glyph value =>
      have htree : s.treeAt? depth n = some (.glyph value) := by rw [treeAt?, hk]
      rw [List.filterMap_cons_some htree]
      exact ⟨.glyph n value :: vs, .glyph hk hwalk, .glyph n value htold⟩
    | container tag =>
      have htree : s.treeAt? depth n = some (.scope tag (s.forestBelow depth n)) := by
        rw [treeAt?, hk]
      obtain ⟨us, hbelow, hinside⟩ := h n List.mem_cons_self (by simp [hk])
      rw [List.filterMap_cons_some htree]
      exact ⟨_, .scope hk hbelow hwalk, .scope n tag hinside htold⟩

/-- What hangs below a node is walked through to its end, and read at any depth that exceeds the sheet
together with the way up. -/
theorem Linked.exists_walk (h : Linked s) {depth : Nat} {around : List Node} (hup : s.Hangs around)
    (hroot : .root ∉ around) (hdepth : s.size ≤ depth + around.length) :
    ∃ vs, s.Walks (s.children (around.headD .root)) vs ∧
      Tree.Told (s.forestBelow depth (around.headD .root)) vs := by
  have hlt := hup.length_lt_size h.pos hroot
  induction depth generalizing around with
  | zero => omega
  | succ depth ih =>
    rw [forestBelow_succ]
    refine exists_walk_of_forall depth fun n hn hk => ?_
    have hp : s.parent? n = some (around.headD .root) := h.mem_iff.1 (List.mem_reverse.1 hn)
    have hbelow : s.Hangs (n :: around) := ⟨hp, hup⟩
    have hroot' : .root ∉ n :: around := by
      rw [List.mem_cons, not_or]
      exact ⟨(h.ne_root hk).symm, hroot⟩
    refine ih hbelow hroot' ?_ (hbelow.length_lt_size h.pos hroot')
    rw [List.length_cons]
    omega

/-! ## No node twice -/

/-- A node hangs below another one, and there is no root on the way up to that. -/
def Below (s : Sheet) (around : List Node) (n m : Node) : Prop :=
  ∃ within, .root ∉ n :: within ∧ s.Hangs (m :: (within ++ n :: around))

section

variable {around ns : List Node} {n n' m : Node} {vs : List Visit}

theorem Below.root_not_mem (hroot : .root ∉ around) {within : List Node}
    (h : .root ∉ n :: within) : .root ∉ within ++ n :: around := by
  simp only [List.mem_cons, List.mem_append, not_or] at h ⊢
  exact ⟨h.2, h.1, hroot⟩

/-- What hangs below a node does not hang beside it. -/
theorem Below.not_beside (h : s.Below around n m) (hroot : .root ∉ around) :
    ¬s.Hangs (m :: around) := by
  intro hm
  obtain ⟨within, hwithin, hup⟩ := h
  have hsame := congrArg List.length (hm.eq_of_hangs hup hroot (root_not_mem hroot hwithin))
  rw [List.length_append, List.length_cons] at hsame
  omega

/-- Nothing hangs below two nodes that hang beside each other. -/
theorem Below.unique (h : s.Below around n m) (h' : s.Below around n' m)
    (hroot : .root ∉ around) : n = n' := by
  obtain ⟨within, hwithin, hup⟩ := h
  obtain ⟨within', hwithin', hup'⟩ := h'
  have hsame := hup.eq_of_hangs hup' (root_not_mem hroot hwithin) (root_not_mem hroot hwithin')
  exact (List.cons.inj (List.append_inj' hsame rfl).2).1

theorem Below.of_child (hs : Linked s) (hroot : n ≠ .root) (hn : s.Hangs (n :: around))
    (hchild : n' ∈ s.children n) (h : m = n' ∨ s.Below (n :: around) n' m) : s.Below around n m := by
  have hp : s.parent? n' = some n := hs.mem_iff.1 (List.mem_reverse.1 hchild)
  rcases h with rfl | ⟨within, hwithin, hup⟩
  · exact ⟨[], by simpa using hroot.symm, hp, hn⟩
  · simp only [List.mem_cons, not_or] at hwithin
    refine ⟨within ++ [n'], ?_, ?_⟩
    · simp [hroot.symm, hwithin.1, hwithin.2]
    · rwa [List.append_assoc]

/-- The nodes of a list hang beside each other, from the last node of the way down to them. -/
def Beside (s : Sheet) (around ns : List Node) : Prop :=
  ∀ n ∈ ns, s.Hangs (n :: around)

theorem Linked.beside_children (hs : Linked s) (hn : s.Hangs around) :
    s.Beside around (s.children (around.headD .root)) := fun _ hchild =>
  ⟨hs.mem_iff.1 (List.mem_reverse.1 hchild), hn⟩

theorem Beside.tail (h : s.Beside around (n :: ns)) : s.Beside around ns :=
  fun m hm => h m (List.mem_cons_of_mem _ hm)

theorem ne_root_of_container (hs : Linked s) {tag : Tag} (hk : s.kind n = .container tag) :
    n ≠ .root :=
  hs.ne_root (by simp [hk])

/-- What a walk comes upon is one of its nodes, or hangs below one. -/
theorem Walks.at_or_below (h : s.Walks ns vs) (hs : Linked s) (hns : s.Beside around ns) :
    ∀ m ∈ vs.filterMap Visit.seen?, ∃ n ∈ ns, m = n ∨ s.Below around n m := by
  induction h generalizing around with
  | nil => simp
  | @pass n ns vs hk rest ih | @glyph n _ ns vs hk rest ih =>
    rintro m (_ | ⟨_, hm⟩)
    · exact ⟨n, List.mem_cons_self, .inl rfl⟩
    · obtain ⟨n', hn', hbelow⟩ := ih hns.tail m hm
      exact ⟨n', List.mem_cons_of_mem _ hn', hbelow⟩
  | @scope n tag ns us vs hk below rest ihbelow ih =>
    rw [Visit.seen_scope]
    intro m hm
    rcases List.mem_cons.1 hm with rfl | hm
    · exact ⟨m, List.mem_cons_self, .inl rfl⟩
    rcases List.mem_append.1 hm with hm | hm
    · have hn := hns n List.mem_cons_self
      obtain ⟨n', hn', hbelow⟩ := ihbelow (hs.beside_children hn) m hm
      exact ⟨n, List.mem_cons_self, .inr (.of_child hs (ne_root_of_container hs hk) hn hn' hbelow)⟩
    · obtain ⟨n', hn', hbelow⟩ := ih hns.tail m hm
      exact ⟨n', List.mem_cons_of_mem _ hn', hbelow⟩

/-- A walk does not come upon what hangs beside its nodes. -/
theorem Walks.not_mem_seen (h : s.Walks ns vs) (hs : Linked s) (hroot : .root ∉ around)
    (hns : s.Beside around (n :: ns)) (hnot : n ∉ ns) : n ∉ vs.filterMap Visit.seen? := by
  intro hmem
  obtain ⟨n', hn', rfl | hbelow⟩ := h.at_or_below hs hns.tail n hmem
  · exact hnot hn'
  · exact hbelow.not_beside hroot (hns n List.mem_cons_self)

/-- A walk through nodes that hang beside each other comes to no node twice. -/
theorem Walks.nodup (h : s.Walks ns vs) (hs : Linked s) (hroot : .root ∉ around)
    (hns : s.Beside around ns) (hnodup : ns.Nodup) : (vs.filterMap Visit.seen?).Nodup := by
  induction h generalizing around with
  | nil => exact .nil
  | pass hk rest ih | glyph hk rest ih =>
    obtain ⟨hnot, hrest⟩ := List.nodup_cons.1 hnodup
    exact List.nodup_cons.2 ⟨rest.not_mem_seen hs hroot hns hnot, ih hroot hns.tail hrest⟩
  | @scope n tag ns us vs hk below rest ihbelow ih =>
    obtain ⟨hnot, hrest⟩ := List.nodup_cons.1 hnodup
    have hn := hns n List.mem_cons_self
    have hne := ne_root_of_container hs hk
    have hroot' : .root ∉ n :: around := by simpa using ⟨hne.symm, hroot⟩
    -- what the walk comes upon in the container hangs below it
    have hbelow (m) (hm : m ∈ us.filterMap Visit.seen?) : s.Below around n m := by
      obtain ⟨n', hn', hm⟩ := below.at_or_below hs (hs.beside_children hn) m hm
      exact .of_child hs hne hn hn' hm
    rw [Visit.seen_scope, List.nodup_cons, List.mem_append, not_or, List.nodup_append']
    refine ⟨⟨fun hm => (hbelow n hm).not_beside hroot hn, rest.not_mem_seen hs hroot hns hnot⟩,
      ihbelow hroot' (hs.beside_children hn) (List.nodup_reverse.2 (hs.nodup n)),
      ih hroot hns.tail hrest, fun m hm hm' => ?_⟩
    obtain ⟨n', hn', rfl | hm'⟩ := rest.at_or_below hs hns.tail m hm'
    · exact (hbelow m hm).not_beside hroot (hns m (List.mem_cons_of_mem _ hn'))
    · exact hnot ((hbelow m hm).unique hm' hroot ▸ hn')

/-- What is entered is a container. -/
theorem Walks.kind_of_enter (h : s.Walks ns vs) {tag : Tag} (hmem : .enter n tag ∈ vs) :
    s.kind n = .container tag := by
  induction h with
  | nil => cases hmem
  | pass hk rest ih | glyph hk rest ih =>
    obtain _ | ⟨_, hmem⟩ := hmem
    exact ih hmem
  | scope hk below rest ihbelow ih =>
    obtain _ | ⟨_, hmem⟩ := hmem
    · exact hk
    · rcases List.mem_append.1 hmem with hmem | _ | ⟨_, hmem⟩
      · exact ihbelow hmem
      · exact ih hmem

end

/-! ## Uses of a sheet -/

/-- One use of the operations on sheets, on nodes that there are. -/
inductive Edit (s : Sheet) : Sheet → Prop
  | createGlyph (value : Char) : Edit s (Surface.createGlyph s value).2
  | createContainer (tag : Tag) : Edit s (Surface.createContainer s tag).2
  | append {parent child : Node} (hparent : parent < s.size) (hchild : child < s.size) :
      Edit s (Surface.append s parent child)
  | remove {parent child : Node} (hparent : parent < s.size) (hchild : child < s.size) :
      Edit s (Surface.remove s parent child)

theorem Edit.reachable (h : Edit s t) (hs : s.Reachable) : t.Reachable := by
  cases h with
  | createGlyph value => exact hs.createGlyph value
  | createContainer tag => exact hs.createContainer tag
  | append hparent hchild => exact hs.append hparent hchild
  | remove hparent hchild => exact hs.remove hparent hchild

theorem Reachable.edits (hs : s.Reachable) (h : Relation.ReflTransGen Edit s t) : t.Reachable := by
  induction h with
  | refl => exact hs
  | tail _ hedit ih => exact hedit.reachable ih

/-- Two sheets have the same links. -/
def SameLinks (s t : Sheet) : Prop :=
  ∀ n, t.parent? n = s.parent? n ∧ t.children n = s.children n

theorem SameLinks.refl (s : Sheet) : SameLinks s s := fun _ => ⟨rfl, rfl⟩

theorem SameLinks.trans {u : Sheet} (h : SameLinks s t) (h' : SameLinks t u) : SameLinks s u :=
  fun n => ⟨(h' n).1.trans (h n).1, (h' n).2.trans (h n).2⟩

/-- Making a node changes no links. -/
theorem sameLinks_create (s : Sheet) (k : Kind) : SameLinks s (s.create k).2 := by
  intro n
  rw [parent?, children, slot_create_eq]
  exact ⟨rfl, rfl⟩

/-- Taking a node off raises the revision, or does nothing. -/
theorem remove_cases (s : Sheet) (p c : Node) :
    (s.remove p c).revision = s.revision + 1 ∨ s.remove p c = s := by
  unfold remove
  split
  · exact .inl rfl
  · exact .inr rfl

theorem revision_le_detach (s : Sheet) (c : Node) : s.revision ≤ (s.detach c).revision := by
  unfold detach
  split
  · rename_i p _
    rcases s.remove_cases p c with h | h
    · exact h ▸ Nat.le_succ _
    · exact Nat.le_of_eq (congrArg revision h).symm
  · exact Nat.le_refl _

/-- An edit that changes links raises the revision, and none lowers it. -/
theorem Edit.revision (h : Edit s t) :
    s.revision ≤ t.revision ∧ (s.revision = t.revision → SameLinks s t) := by
  cases h with
  | createGlyph | createContainer => exact ⟨Nat.le_refl _, fun _ => sameLinks_create s _⟩
  | @append p c hparent hchild =>
    have hlt : s.revision < (s.append p c).revision := Nat.lt_succ_of_le (s.revision_le_detach c)
    exact ⟨Nat.le_of_lt hlt, fun heq => absurd heq (Nat.ne_of_lt hlt)⟩
  | @remove p c hparent hchild =>
    change _ ≤ (s.remove p c).revision ∧ (_ = (s.remove p c).revision → SameLinks s (s.remove p c))
    rcases s.remove_cases p c with h | h
    · exact ⟨h ▸ Nat.le_succ _, fun heq => absurd (heq.trans h) (Nat.ne_of_lt (Nat.lt_succ_self _))⟩
    · rw [h]
      exact ⟨Nat.le_refl _, fun _ => .refl s⟩

theorem revision_of_edits (h : Relation.ReflTransGen Edit s t) :
    s.revision ≤ t.revision ∧ (s.revision = t.revision → SameLinks s t) := by
  induction h with
  | refl => exact ⟨Nat.le_refl _, fun _ => .refl s⟩
  | tail _ hedit ih =>
    obtain ⟨hle, hsame⟩ := hedit.revision
    refine ⟨ih.1.trans hle, fun heq => ?_⟩
    -- the revision was the same all along
    have hmiddle := Nat.le_antisymm ih.1 (heq ▸ hle)
    exact (ih.2 hmiddle).trans (hsame (hmiddle.symm.trans heq))

/-- What no use of its operations breaks in a sheet. -/
structure Consistent (s : Sheet) : Prop where
  /-- children and parents are the two sides of one link -/
  mem_children : ∀ p c, c ∈ s.children p ↔ s.parent? c = some p
  nodup_children : ∀ p, (s.children p).Nodup
  /-- the walk from the root comes to its end, comes upon no node twice, and goes through no list of
  children twice; all that is read off the sheet is what it comes upon -/
  walk : ∃ visits, (∀ vs, s.Walks (s.children .root) vs ↔ vs = visits) ∧
    (visits.filterMap Visit.seen?).Nodup ∧ (Node.root :: visits.filterMap Visit.entered?).Nodup ∧
    s.spans = Visit.spans [] visits ∧ s.text = visits.filterMap Visit.value? ∧
    s.markup = visits.flatMap Visit.markup ∧
    s.containerCount = (visits.filterMap Visit.entered?).length

theorem Linked.consistent (hs : Linked s) : Consistent s where
  mem_children _ _ := List.mem_reverse.trans hs.mem_iff
  nodup_children p := List.nodup_reverse.2 (hs.nodup p)
  walk := by
    have hnone : s.Hangs [] := trivial
    obtain ⟨vs, hwalk, htold⟩ := hs.exists_walk hnone List.not_mem_nil (Nat.le_refl s.size)
    have hnodup := hwalk.nodup hs List.not_mem_nil (hs.beside_children hnone)
      (List.nodup_reverse.2 (hs.nodup _))
    have hspans : s.spans = Visit.spans [] vs := by
      have hall := htold.spans_append [] []
      rw [List.append_nil] at hall
      exact (hall.trans (List.append_nil _)).symm
    refine ⟨vs, fun us => ⟨fun h => h.unique hwalk, fun h => h ▸ hwalk⟩, hnodup, ?_, hspans, ?_,
      htold.markups_eq, htold.scopeCounts_eq⟩
    · refine List.nodup_cons.2 ⟨fun hmem => ?_, hnodup.sublist (Visit.entered_sublist_seen vs)⟩
      obtain ⟨v, hv, hroot⟩ := List.mem_filterMap.1 hmem
      cases v with
      | enter n tag =>
        cases hroot
        exact ne_root_of_container hs (hwalk.kind_of_enter hv) rfl
      | glyph | leave | pass => cases hroot
    · rw [text, hspans, Visit.map_fst_spans]

/-- **A sheet stays consistent, and its revision tells its links**, whatever its operations are used
for: each node hangs where it is a child, once; the walk that spans, markup and the number of containers
are read in comes to its end and to no node twice, so that they agree; and from one moment to a later one
the revision does not fall, and is the same only if all links are. -/
theorem consistent_of_edits {s t : Sheet} (hs : Relation.ReflTransGen Edit blank s)
    (ht : Relation.ReflTransGen Edit s t) :
    t.Consistent ∧ s.revision ≤ t.revision ∧ (s.revision = t.revision → SameLinks s t) :=
  ⟨(Reachable.blank.edits (hs.trans ht)).linked.consistent, revision_of_edits ht⟩

/-- The root hangs below a glyph, and the glyph, which was moved, in a container that is seen; another
container hangs below itself. -/
theorem consistent_of_edits_circles :
    let hung := (blank.create (.container .bold)).2.append 0 1
    let s := (hung.create (.glyph 'x')).2.append 0 2
    let moved := (s.append 1 2).append 2 0
    let t := (moved.create (.container .gray)).2.append 3 3
    Relation.ReflTransGen Edit blank s ∧ Relation.ReflTransGen Edit s t ∧
      t.parent? .root = some 2 ∧ t.parent? 3 = some 3 ∧ t.markup = "<b>x</b>".toList ∧
      s.revision = 2 ∧ t.revision = 6 ∧
      t.Consistent ∧ s.revision ≤ t.revision ∧ (s.revision = t.revision → SameLinks s t) := by
  intro hung s moved t
  have hhung : Relation.ReflTransGen Edit blank hung :=
    (Relation.ReflTransGen.single (.createContainer .bold)).tail (.append (by decide) (by decide))
  have hs : Relation.ReflTransGen Edit blank s :=
    (hhung.tail (.createGlyph 'x')).tail (.append (by decide) (by decide))
  have hmoved : Relation.ReflTransGen Edit s moved :=
    (Relation.ReflTransGen.single (.append (by decide) (by decide))).tail
      (.append (by decide) (by decide))
  have ht : Relation.ReflTransGen Edit s t :=
    (hmoved.tail (.createContainer .gray)).tail (.append (by decide) (by decide))
  exact ⟨hs, ht, by decide, by decide, by decide, by decide, by decide, consistent_of_edits hs ht⟩

end Sheet

end Typist
