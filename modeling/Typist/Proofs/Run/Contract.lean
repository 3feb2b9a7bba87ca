import Typist.Proofs.Run.Record
import Typist.Proofs.Surface.Faithful

/-!
# What a run asks of its surface

A surface may be used by others before a run and after it, and nothing in it keeps one from taking off
a node that hangs elsewhere, or from hanging up one that was taken off. A run keeps handles in two
places, its scopes and its ledger, and some of them are handles of nodes that were taken off long ago.
It nevertheless does nothing to its surface that it is not meant to do, whatever the surface is, as
long as what that reports can be relied on.

* `nodesMade`, `containersMade`, `nodesHung` — what acts say of nodes;
* `MayRemove`, `Honours` — when a node may be taken off, and what it is to use a surface well;
* `Used` — the invariant: what was made hangs where it was hung up, or was taken off once;
* `Run.Proper.takeOff_eq` — the way up from an erased glyph is never cut short;
* `typeTokens_honours` — that a run uses its surface well.
-/

namespace Typist

/-! ## What acts say of nodes -/

/-- The node that an act makes. -/
def Act.made? : Act → Option Node
  | .glyph node _ | .container node _ => some node
  | .append _ _ | .remove _ _ | .wait _ => none

/-- The tag of the container that an act makes. -/
def Act.tag? : Act → Option Tag
  | .container _ tag => some tag
  | .glyph _ _ | .append _ _ | .remove _ _ | .wait _ => none

/-- The nodes that acts make, in their order. -/
def nodesMade (acts : List Act) : List Node :=
  acts.filterMap Act.made?

/-- The containers that acts make, in their order. -/
def containersMade (acts : List Act) : List Node :=
  acts.filterMap fun act => match act with
    | .container node _ => some node
    | _ => none

/-- The nodes that acts hang up, in their order. -/
def nodesHung (acts : List Act) : List Node :=
  acts.filterMap fun act => match act with
    | .append _ node => some node
    | _ => none

section

variable {acts : List Act} {n p : Node}

@[simp] theorem nodesMade_reverse : nodesMade acts.reverse = (nodesMade acts).reverse :=
  List.filterMap_reverse

@[simp] theorem containersMade_reverse :
    containersMade acts.reverse = (containersMade acts).reverse :=
  List.filterMap_reverse

@[simp] theorem nodesHung_reverse : nodesHung acts.reverse = (nodesHung acts).reverse :=
  List.filterMap_reverse

/-- A node was made if an act on record makes it. -/
theorem mem_nodesMade : n ∈ nodesMade acts ↔ ∃ act ∈ acts, act.made? = some n :=
  List.mem_filterMap

/-- A container was made if that is on record with its tag. -/
theorem mem_containersMade : n ∈ containersMade acts ↔ ∃ tag, .container n tag ∈ acts := by
  constructor
  · intro h
    obtain ⟨act, hmem, hact⟩ := List.mem_filterMap.1 h
    cases act with
    | container node tag =>
      cases hact
      exact ⟨tag, hmem⟩
    | glyph | append | remove | wait => cases hact
  · rintro ⟨tag, hmem⟩
    exact List.mem_filterMap.2 ⟨_, hmem, rfl⟩

/-- A glyph was made if that is on record with its character. -/
theorem mem_glyphsMade : n ∈ glyphsMade acts ↔ ∃ value, .glyph n value ∈ acts := by
  constructor
  · intro h
    obtain ⟨act, hmem, hact⟩ := List.mem_filterMap.1 h
    cases act with
    | glyph node value =>
      cases hact
      exact ⟨value, hmem⟩
    | container | append | remove | wait => cases hact
  · rintro ⟨value, hmem⟩
    exact List.mem_filterMap.2 ⟨_, hmem, rfl⟩

theorem mem_nodesMade_of_container (h : n ∈ containersMade acts) : n ∈ nodesMade acts := by
  obtain ⟨tag, hmem⟩ := mem_containersMade.1 h
  exact mem_nodesMade.2 ⟨_, hmem, rfl⟩

theorem mem_nodesMade_of_glyph (h : n ∈ glyphsMade acts) : n ∈ nodesMade acts := by
  obtain ⟨value, hmem⟩ := mem_glyphsMade.1 h
  exact mem_nodesMade.2 ⟨_, hmem, rfl⟩

theorem mem_nodesHung_of_append (h : .append p n ∈ acts) : n ∈ nodesHung acts :=
  List.mem_filterMap.2 ⟨_, h, rfl⟩

/-! ### A node that is made and hung up -/

variable {act : Act}

/-- A node that is made and hung up is one node more that was made. -/
theorem nodesMade_hung (hact : act.made? = some n) :
    nodesMade (.append p n :: act :: acts) = n :: nodesMade acts := by
  cases act <;> cases hact <;> rfl

/-- It is one node more that was hung up. -/
theorem nodesHung_hung (hact : act.made? = some n) :
    nodesHung (.append p n :: act :: acts) = n :: nodesHung acts := by
  cases act <;> cases hact <;> rfl

/-- No node is taken off meanwhile. -/
theorem nodesTakenOff_hung (hact : act.made? = some n) :
    nodesTakenOff (.append p n :: act :: acts) = nodesTakenOff acts := by
  cases act <;> cases hact <;> rfl

theorem mem_containersMade_hung {m : Node} (h : m ∈ containersMade acts) :
    m ∈ containersMade (.append p n :: act :: acts) := by
  obtain ⟨tag, hm⟩ := mem_containersMade.1 h
  exact mem_containersMade.2 ⟨tag, List.mem_cons_of_mem _ (List.mem_cons_of_mem _ hm)⟩

/-- Where a node was hung from is on record for each node: of the new one in the last act, of the
others further back. -/
theorem append_mem_hung (hact : act.made? = some n) {q m : Node} :
    .append q m ∈ Act.append p n :: act :: acts ↔ (q = p ∧ m = n) ∨ .append q m ∈ acts := by
  cases act <;> cases hact <;> simp

end

/-! ## Using a surface well -/

section

variable {σ : Type} [Surface σ]

/-- On a surface that stood like `s` before some acts, a node may be taken off another one: it was made
by one of them, hangs there now, was not taken off yet, and nothing hangs from it, neither by the
report of the surface nor by what the acts say. -/
structure MayRemove (s : σ) (before : List Act) (p c : Node) : Prop where
  made : c ∈ nodesMade before
  hung : .append p c ∈ before
  parent? : Surface.parent? (before.foldl Act.onto s) c = some p
  childCount : Surface.childCount (before.foldl Act.onto s) c = 0
  children : ∀ m, .append c m ∈ before → m ∈ nodesTakenOff before
  first : c ∉ nodesTakenOff before

/-- Acts use a surface well that stood like `s` before them. -/
structure Honours (F : Faithful σ) (s : σ) (acts : List Act) : Prop where
  /-- what is made is new, and no node is made twice -/
  made : (nodesMade acts).Nodup ∧ .root ∉ nodesMade acts ∧ ∀ n ∈ nodesMade acts, ¬F.Has s n
  /-- directly after it was made, a node is hung from the root or from a container that was made
  before it, and not from a glyph -/
  append : ∀ before act after n, acts = before ++ act :: after → act.made? = some n →
    ∃ p later, after = .append p n :: later ∧ (p = .root ∨ p ∈ containersMade before) ∧
      p ∉ glyphsMade acts
  /-- nothing else is hung up, and nothing twice -/
  once : nodesHung acts = nodesMade acts
  /-- what is taken off may be taken off, and is never hung up or taken off again -/
  remove : ∀ before p c after, acts = before ++ .remove p c :: after →
    MayRemove s before p c ∧ c ∉ nodesHung after ∧ c ∉ nodesTakenOff after
  /-- what was not made is left alone -/
  others : ∀ n, n ∉ nodesMade acts → n ∉ nodesHung acts ∧ n ∉ nodesTakenOff acts

/-- A surface that stood like `s` stands like `t` now, and the acts on record, the last one first, have
used it well: what they have made hangs where it was hung up, or was taken off once, and what was there
before hangs where it did. -/
structure Used (F : Faithful σ) (s t : σ) (history : List Act) : Prop where
  surface : t = history.foldr (fun act s => act.onto s) s
  ok : F.Ok t
  has_iff : ∀ n, F.Has t n ↔ F.Has s n ∨ n ∈ nodesMade history
  new : ∀ n ∈ nodesMade history, ¬F.Has s n
  made_nodup : (nodesMade history).Nodup
  hung : nodesHung history = nodesMade history
  taken : ∀ n ∈ nodesTakenOff history, n ∈ nodesMade history
  taken_nodup : (nodesTakenOff history).Nodup
  tag? : ∀ act ∈ history, ∀ n, act.made? = some n → Surface.tag? t n = act.tag?
  place : ∀ p n, .append p n ∈ history → p = .root ∨ p ∈ containersMade history
  parent?_old : ∀ n, F.Has s n → Surface.parent? t n = Surface.parent? s n
  parent?_iff : ∀ n ∈ nodesMade history, ∀ p,
    Surface.parent? t n = some p ↔ .append p n ∈ history ∧ n ∉ nodesTakenOff history
  /-- what was made was hung up at once -/
  append : ∀ act past n, act :: past <:+ history → act.made? = some n →
    ∃ p, (p = .root ∨ p ∈ containersMade past) ∧ .append p n :: act :: past <:+ history
  remove : ∀ p c past, .remove p c :: past <:+ history → MayRemove s past.reverse p c

namespace Used

variable {F : Faithful σ} {s t : σ} {history : List Act} {n p c : Node}

/-- A surface was used well if it was not used. -/
theorem refl (hs : F.Ok s) : Used F s s [] := by
  constructor <;> simp [nodesMade, nodesHung, nodesTakenOff, hs]

/-- What was made is a node of the surface. -/
theorem has (h : Used F s t history) (hn : n ∈ nodesMade history) : F.Has t n :=
  (h.has_iff n).2 (.inr hn)

/-- The root was not made. -/
theorem ne_root (h : Used F s t history) (hs : F.Ok s) (hn : n ∈ nodesMade history) : n ≠ .root :=
  fun hroot => h.new n hn (hroot ▸ F.root hs)

/-- Where nodes may be hung from, nodes may be taken off on the way up. -/
theorem has_place (h : Used F s t history) (hp : p = .root ∨ p ∈ containersMade history) :
    F.Has t p ∧ (p = .root ∨ (Surface.tag? t p).isSome) := by
  rcases hp with rfl | hp
  · exact ⟨F.root h.ok, .inl rfl⟩
  · obtain ⟨tag, hmem⟩ := mem_containersMade.1 hp
    refine ⟨h.has (mem_nodesMade_of_container hp), .inr ?_⟩
    rw [h.tag? _ hmem p rfl]
    rfl

/-- A glyph is no place to hang a node from. -/
theorem not_glyph_of_place (h : Used F s t history) (hs : F.Ok s)
    (hp : p = .root ∨ p ∈ containersMade history) : p ∉ glyphsMade history := by
  intro hglyph
  rcases hp with rfl | hp
  · exact h.ne_root hs (mem_nodesMade_of_glyph hglyph) rfl
  · obtain ⟨tag, hmem⟩ := mem_containersMade.1 hp
    obtain ⟨value, hmem'⟩ := mem_glyphsMade.1 hglyph
    have htag := (h.tag? _ hmem p rfl).symm.trans (h.tag? _ hmem' p rfl)
    cases htag

/-- Nothing hangs from a glyph. -/
theorem childCount_glyph (h : Used F s t history) (hs : F.Ok s) (hn : n ∈ glyphsMade history) :
    Surface.childCount t n = 0 := by
  have hmade := mem_nodesMade_of_glyph hn
  refine F.childCount_eq_zero h.ok (h.has hmade) fun m hm hp => ?_
  rcases (h.has_iff m).1 hm with hold | hm
  · rw [h.parent?_old m hold] at hp
    exact h.new n hmade (F.parent hs hold hp)
  · have hhung := ((h.parent?_iff m hm n).1 hp).1
    exact h.not_glyph_of_place hs (h.place n m hhung) hn

/-- A node that was made and that nothing hangs from may be taken off. -/
theorem mayRemove (h : Used F s t history) (hc : c ∈ nodesMade history)
    (hp : Surface.parent? t c = some p) (hempty : Surface.childCount t c = 0) :
    MayRemove s history.reverse p c := by
  have hwhere := (h.parent?_iff c hc p).1 hp
  have hsurface : history.reverse.foldl Act.onto s = t := by
    rw [List.foldl_reverse, h.surface]
  refine ⟨by simpa using hc, by simpa using hwhere.1, by rwa [hsurface], by rwa [hsurface], ?_,
    by simpa using hwhere.2⟩
  intro m hm
  by_contra hleft
  have hm : .append c m ∈ history := List.mem_reverse.1 hm
  have hleft : m ∉ nodesTakenOff history := by simpa using hleft
  have hmade : m ∈ nodesMade history := h.hung ▸ mem_nodesHung_of_append hm
  exact F.parent?_ne_of_childCount h.ok (h.has hc) hempty (h.has hmade)
    ((h.parent?_iff m hmade c).2 ⟨hm, hleft⟩)

/-- A node that may be taken off is taken off well. -/
theorem removed (h : Used F s t history) (hc : c ∈ nodesMade history)
    (hp : Surface.parent? t c = some p) (hempty : Surface.childCount t c = 0) :
    Used F s (Surface.remove t p c) (.remove p c :: history) := by
  obtain ⟨hok, hlinks⟩ := F.remove h.ok (h.has hc) hp hempty
  have hnot := ((h.parent?_iff c hc p).1 hp).2
  constructor
  case surface => exact congrArg (Surface.remove · p c) h.surface
  case ok => exact hok
  case has_iff => exact fun n => (hlinks.has_iff n).trans (h.has_iff n)
  case new => exact h.new
  case made_nodup => exact h.made_nodup
  case hung => exact h.hung
  case taken =>
    rintro n (_ | ⟨_, hn⟩)
    · exact hc
    · exact h.taken n hn
  case taken_nodup => exact List.nodup_cons.2 ⟨hnot, h.taken_nodup⟩
  case tag? =>
    rintro act (_ | ⟨_, hact⟩) n hn
    · cases hn
    · have hmade := mem_nodesMade.2 ⟨act, hact, hn⟩
      exact (hlinks.tag?_old n (h.has hmade)).trans (h.tag? act hact n hn)
  case place =>
    rintro q n (_ | ⟨_, hn⟩)
    exact h.place q n hn
  case parent?_old =>
    intro n hn
    have hne : n ≠ c := fun heq => h.new c hc (heq ▸ hn)
    exact (hlinks.parent?_old n ((h.has_iff n).2 (.inl hn)) hne).trans (h.parent?_old n hn)
  case parent?_iff =>
    intro n hn q
    change _ ↔ .append q n ∈ Act.remove p c :: history ∧ n ∉ c :: nodesTakenOff history
    by_cases hnc : n = c
    · simp [hnc, hlinks.parent?]
    · rw [hlinks.parent?_old n (h.has hn) hnc, h.parent?_iff n hn]
      simp [hnc]
  case append =>
    intro act past n hsuffix hact
    rcases List.suffix_cons_iff.1 hsuffix with heq | hsuffix
    · cases heq
      cases hact
    · obtain ⟨q, hq, hlater⟩ := h.append act past n hsuffix hact
      exact ⟨q, hq, hlater.trans (List.suffix_cons _ _)⟩
  case remove =>
    intro q n past hsuffix
    rcases List.suffix_cons_iff.1 hsuffix with heq | hsuffix
    · cases heq
      exact h.mayRemove hc hp hempty
    · exact h.remove q n past hsuffix

/-! ### A node that is made and hung up -/

section

variable {act : Act} {u : σ}

/-- The parents on record are places to hang nodes from. -/
theorem place_hung (h : Used F s t history) (hact : act.made? = some n)
    (hp : p = .root ∨ p ∈ containersMade history) {q m : Node}
    (hm : .append q m ∈ Act.append p n :: act :: history) :
    q = .root ∨ q ∈ containersMade (.append p n :: act :: history) := by
  rcases (append_mem_hung hact).1 hm with ⟨rfl, -⟩ | hm
  · exact hp.imp_right mem_containersMade_hung
  · exact (h.place q m hm).imp_right mem_containersMade_hung

/-- Tags are reported as they are on record. -/
theorem tag?_hung (h : Used F s t history) (hact : act.made? = some n)
    (hgrows : Surface.Grows F.Has t u p n act.tag?) {act' : Act}
    (hact' : act' ∈ Act.append p n :: act :: history) {m : Node} (hm : act'.made? = some m) :
    Surface.tag? u m = act'.tag? := by
  rcases hact' with _ | ⟨_, _ | ⟨_, hact'⟩⟩
  · cases hm
  · cases hact.symm.trans hm
    exact hgrows.tag?
  · have hmade := mem_nodesMade.2 ⟨act', hact', hm⟩
    exact (hgrows.tag?_old m (h.has hmade)).trans (h.tag? act' hact' m hm)

/-- Parents are reported as they are on record. -/
theorem parent?_iff_hung (h : Used F s t history) (hact : act.made? = some n)
    (hgrows : Surface.Grows F.Has t u p n act.tag?) {m : Node}
    (hm : m ∈ nodesMade (.append p n :: act :: history)) (q : Node) :
    Surface.parent? u m = some q ↔ .append q m ∈ Act.append p n :: act :: history ∧
      m ∉ nodesTakenOff (.append p n :: act :: history) := by
  rw [nodesMade_hung hact] at hm
  rw [nodesTakenOff_hung hact, append_mem_hung hact]
  have hnew : n ∉ nodesMade history := fun hn => hgrows.new (h.has hn)
  rcases List.mem_cons.1 hm with rfl | hm
  · have hleft : m ∉ nodesTakenOff history := fun hn => hnew (h.taken m hn)
    have honce : .append q m ∉ history := fun hn => hnew (h.hung ▸ mem_nodesHung_of_append hn)
    simp [hgrows.parent?, hleft, honce, eq_comm]
  · have hne : m ≠ n := fun heq => hnew (heq ▸ hm)
    rw [hgrows.parent?_old m (h.has hm), h.parent?_iff m hm q]
    simp [hne]

/-- Whatever was made was hung up at once. -/
theorem append_hung (h : Used F s t history) (hact : act.made? = some n)
    (hp : p = .root ∨ p ∈ containersMade history) {act' : Act} {past : List Act} {m : Node}
    (hsuffix : act' :: past <:+ .append p n :: act :: history) (hact' : act'.made? = some m) :
    ∃ q, (q = .root ∨ q ∈ containersMade past) ∧
      .append q m :: act' :: past <:+ .append p n :: act :: history := by
  rcases List.suffix_cons_iff.1 hsuffix with heq | hsuffix
  · cases heq
    cases hact'
  rcases List.suffix_cons_iff.1 hsuffix with heq | hsuffix
  · cases heq
    cases hact.symm.trans hact'
    exact ⟨p, hp, List.suffix_rfl⟩
  · obtain ⟨q, hq, hlater⟩ := h.append act' past m hsuffix hact'
    exact ⟨q, hq, hlater.trans ((List.suffix_cons _ _).trans (List.suffix_cons _ _))⟩

/-- Nothing is taken off meanwhile. -/
theorem remove_hung (h : Used F s t history) (hact : act.made? = some n) {q m : Node}
    {past : List Act} (hsuffix : .remove q m :: past <:+ .append p n :: act :: history) :
    MayRemove s past.reverse q m := by
  rcases List.suffix_cons_iff.1 hsuffix with heq | hsuffix
  · cases heq
  rcases List.suffix_cons_iff.1 hsuffix with heq | hsuffix
  · cases heq
    cases hact
  · exact h.remove q m past hsuffix

/-- A node that an act makes is hung up at once. -/
theorem hanged (h : Used F s t history) (hact : act.made? = some n) (hok : F.Ok (act.onto t))
    (hgains : Surface.Gains F.Has t (act.onto t) n act.tag?)
    (hp : p = .root ∨ p ∈ containersMade history) :
    Used F s (Surface.append (act.onto t) p n) (.append p n :: act :: history) := by
  obtain ⟨hhas, htag⟩ := h.has_place hp
  have htag' : p = .root ∨ (Surface.tag? (act.onto t) p).isSome :=
    htag.imp_right fun hp => (hgains.tag?_old p hhas).symm ▸ hp
  obtain ⟨hok', hlinks⟩ := F.append hok ((hgains.has_iff p).2 (.inr hhas)) htag'
    ((hgains.has_iff n).2 (.inl rfl)) hgains.parent?
  have hgrows := hgains.relinked hlinks
  have hmade : nodesMade (.append p n :: act :: history) = n :: nodesMade history :=
    nodesMade_hung hact
  have htaken : nodesTakenOff (.append p n :: act :: history) = nodesTakenOff history :=
    nodesTakenOff_hung hact
  constructor
  case surface => exact congrArg (fun t => Surface.append (act.onto t) p n) h.surface
  case ok => exact hok'
  case has_iff =>
    intro m
    rw [hgrows.has_iff, h.has_iff, hmade, List.mem_cons]
    exact or_left_comm
  case new =>
    rw [hmade]
    rintro m (_ | ⟨_, hm⟩)
    · exact fun hm => hgrows.new ((h.has_iff n).2 (.inl hm))
    · exact h.new m hm
  case made_nodup =>
    exact hmade ▸ List.nodup_cons.2 ⟨fun hn => hgrows.new (h.has hn), h.made_nodup⟩
  case hung => rw [hmade, nodesHung_hung hact, h.hung]
  case taken =>
    rw [hmade, htaken]
    exact fun m hm => List.mem_cons_of_mem _ (h.taken m hm)
  case taken_nodup => exact htaken ▸ h.taken_nodup
  case tag? => exact fun act' hact' m hm => h.tag?_hung hact hgrows hact' hm
  case place => exact fun q m hm => h.place_hung hact hp hm
  case parent?_old =>
    exact fun m hm => (hgrows.parent?_old m ((h.has_iff m).2 (.inl hm))).trans (h.parent?_old m hm)
  case parent?_iff => exact fun m hm q => h.parent?_iff_hung hact hgrows hm q
  case append => exact fun act' past m hsuffix hact' => h.append_hung hact hp hsuffix hact'
  case remove => exact fun q m past hsuffix => h.remove_hung hact hsuffix

end

/-- Waiting does nothing to a surface. -/
theorem waited (h : Used F s t history) (delay : Delay) : Used F s t (.wait delay :: history) where
  surface := h.surface
  ok := h.ok
  has_iff := h.has_iff
  new := h.new
  made_nodup := h.made_nodup
  hung := h.hung
  taken := h.taken
  taken_nodup := h.taken_nodup
  tag? := by
    rintro act (_ | ⟨_, hact⟩) n hn
    · cases hn
    · exact h.tag? act hact n hn
  place := by
    rintro q n (_ | ⟨_, hn⟩)
    exact h.place q n hn
  parent?_old := h.parent?_old
  parent?_iff := by
    intro n hn q
    refine (h.parent?_iff n hn q).trans (and_congr_left' ?_)
    simp
  append := by
    intro act past n hsuffix hact
    rcases List.suffix_cons_iff.1 hsuffix with heq | hsuffix
    · cases heq
      cases hact
    · obtain ⟨q, hq, hlater⟩ := h.append act past n hsuffix hact
      exact ⟨q, hq, hlater.trans (List.suffix_cons _ _)⟩
  remove := by
    intro q n past hsuffix
    rcases List.suffix_cons_iff.1 hsuffix with heq | hsuffix
    · cases heq
    · exact h.remove q n past hsuffix

/-- Several waits do nothing to a surface either. -/
theorem waits (h : Used F s t history) {waits : List Act}
    (hwaits : ∀ act ∈ waits, act.delay?.isSome) : Used F s t (waits ++ history) := by
  induction waits with
  | nil => exact h
  | cons act waits ih =>
    have hrest := ih fun act hmem => hwaits act (List.mem_cons_of_mem _ hmem)
    have hact := hwaits act List.mem_cons_self
    cases act with
    | wait delay => exact hrest.waited delay
    | glyph | container | append | remove => cases hact

/-- Acts that have used a surface well, told in their order. -/
theorem honours {acts : List Act} (hs : F.Ok s) (h : Used F s t acts.reverse) :
    Honours F s acts := by
  have hmade : (nodesMade acts).Nodup := by simpa using h.made_nodup
  have hnew (n) (hn : n ∈ nodesMade acts) : ¬F.Has s n := h.new n (by simpa using hn)
  have honce : nodesHung acts = nodesMade acts := by simpa using h.hung
  have htaken : (nodesTakenOff acts).Nodup := by simpa using h.taken_nodup
  refine ⟨⟨hmade, fun hroot => hnew _ hroot (F.root hs), hnew⟩, ?_, honce, ?_, ?_⟩
  · rintro before act after n rfl hact
    have hsplit : (before ++ act :: after).reverse = after.reverse ++ act :: before.reverse := by simp
    obtain ⟨p, hp, later, hlater⟩ :=
      h.append act before.reverse n (hsplit ▸ List.suffix_append _ _) hact
    have hafter : later ++ [.append p n] = after.reverse :=
      List.append_cancel_right ((List.append_cons ..).symm.trans (hlater.trans hsplit))
    have hmem : .append p n ∈ (before ++ act :: after).reverse := by simp [← hlater]
    have hglyph := h.not_glyph_of_place hs (h.place p n hmem)
    rw [glyphsMade_reverse, List.mem_reverse] at hglyph
    refine ⟨p, later.reverse, ?_, by simpa using hp, hglyph⟩
    rw [← List.reverse_reverse after, ← hafter, List.reverse_append]
    rfl
  · rintro before p c after rfl
    have hsplit : (before ++ Act.remove p c :: after).reverse =
        after.reverse ++ .remove p c :: before.reverse := by simp
    have hmay := h.remove p c before.reverse (hsplit ▸ List.suffix_append _ _)
    rw [List.reverse_reverse] at hmay
    refine ⟨hmay, fun hlater => ?_, fun hlater => ?_⟩
    · -- a node that was hung up before is not hung up once more
      rw [← honce] at hmade
      have hhung : nodesHung (before ++ .remove p c :: after) = nodesHung before ++ nodesHung after :=
        List.filterMap_append
      rw [hhung, List.nodup_append'] at hmade
      exact hmade.2.2 (mem_nodesHung_of_append hmay.hung) hlater
    · rw [nodesTakenOff_append, List.nodup_append'] at htaken
      exact (List.nodup_cons.1 htaken.2.1).1 hlater
  · intro n hn
    have hoff (hmem : n ∈ nodesTakenOff acts) : n ∈ nodesMade acts := by
      simpa using h.taken n (by simpa using hmem)
    exact ⟨honce ▸ hn, mt hoff hn⟩

end Used

end

namespace Run

variable {σ : Type} [Surface σ]

/-- A run that has used its surface well and holds on to handles of its own nodes. -/
structure Proper (F : Faithful σ) (s : σ) (r : Run σ) : Prop where
  used : Used F s r.surface r.history
  scopes : ∀ n ∈ r.scopes, n ∈ containersMade r.history
  ledger : ∀ n ∈ r.ledger, n ∈ glyphsMade r.history

namespace Proper

variable {F : Faithful σ} {s : σ} {r r' : Run σ} {n p c : Node}

/-- A run begins properly on any surface that can be relied on. -/
theorem begin (hs : F.Ok s) (pace : Pace) (cancel : Cancel) : Proper F s (.begin pace cancel s) where
  used := .refl hs
  scopes := by simp [Run.begin]
  ledger := by simp [Run.begin]

/-- New nodes are hung from the root or from a container that the run made. -/
theorem current (h : Proper F s r) : r.current = .root ∨ r.current ∈ containersMade r.history := by
  rw [Run.current]
  cases hscopes : r.scopes with
  | nil => exact .inl rfl
  | cons n ns => exact .inr (h.scopes n (hscopes ▸ List.mem_cons_self))

/-- A run stays proper when it types. -/
theorem type (h : Proper F s r) (value : Char) : Proper F s (r.made (.type value)) where
  used := by
    obtain ⟨hok, hgains⟩ := F.createGlyph value h.used.ok
    have hact : (Act.glyph (Surface.createGlyph r.surface value).1 value).made? = some _ := rfl
    exact h.used.hanged hact hok hgains h.current
  scopes := h.scopes
  ledger := by
    rintro n (_ | ⟨_, hn⟩)
    · exact List.mem_cons_self
    · exact List.mem_cons_of_mem _ (h.ledger n hn)

/-- A run stays proper when it opens a scope. -/
theorem opening (h : Proper F s r) (tag : Tag) : Proper F s (r.made (.opening tag)) where
  used := by
    obtain ⟨hok, hgains⟩ := F.createContainer tag h.used.ok
    have hact : (Act.container (Surface.createContainer r.surface tag).1 tag).made? = some _ := rfl
    exact h.used.hanged hact hok hgains h.current
  scopes := by
    rintro n (_ | ⟨_, hn⟩)
    · exact List.mem_cons_self
    · exact List.mem_cons_of_mem _ (h.scopes n hn)
  ledger := h.ledger

/-- A run stays proper when it takes off what may be taken off. -/
theorem remove (h : Proper F s r) (hc : c ∈ nodesMade r.history)
    (hp : Surface.parent? r.surface c = some p) (hempty : Surface.childCount r.surface c = 0) :
    Proper F s (r.remove p c) where
  used := h.used.removed hc hp hempty
  scopes := h.scopes
  ledger := h.ledger

/-- What a node that was made hangs from is a place to hang nodes from. -/
theorem place (h : Proper F s r) (hc : c ∈ nodesMade r.history)
    (hp : Surface.parent? r.surface c = some p) : p = .root ∨ p ∈ containersMade r.history :=
  h.used.place p c ((h.used.parent?_iff c hc p).1 hp).1

/-- A run stays proper when it takes off a node if that is empty; no container is made then. -/
theorem removeIfEmpty (h : Proper F s r) (hc : c ∈ nodesMade r.history) :
    Proper F s (r.removeIfEmpty c) ∧
      containersMade (r.removeIfEmpty c).history = containersMade r.history := by
  unfold Run.removeIfEmpty
  split
  · exact ⟨h, rfl⟩
  · split
    · exact ⟨h.remove hc ‹_› (Nat.eq_zero_of_not_pos ‹_›), rfl⟩
    · exact ⟨h, rfl⟩

/-- A run stays proper when it does so with several containers. -/
theorem foldl_removeIfEmpty (h : Proper F s r) {nodes : List Node}
    (hnodes : ∀ n ∈ nodes, n ∈ containersMade r.history) :
    Proper F s (nodes.foldl Run.removeIfEmpty r) := by
  induction nodes generalizing r with
  | nil => exact h
  | cons node nodes ih =>
    have hnode := hnodes node List.mem_cons_self
    obtain ⟨hnext, hsame⟩ := h.removeIfEmpty (mem_nodesMade_of_container hnode)
    refine ih hnext fun n hn => ?_
    rw [hsame]
    exact hnodes n (List.mem_cons_of_mem _ hn)

/-- A run stays proper when it closes scopes. -/
theorem closing (h : Proper F s r) (tag : Tag) : Proper F s (r.made (.closing tag)) := by
  simp only [Run.made, closeScope]
  split
  · exact ⟨h.used, h.scopes, h.ledger⟩
  · rename_i closed kept hclosing
    have hscopes := h.scopes
    rw [closing?_append hclosing] at hscopes
    have hkept : Proper F s { r with scopes := kept } :=
      ⟨h.used, fun n hn => hscopes n (List.mem_append_right _ hn), h.ledger⟩
    exact hkept.foldl_removeIfEmpty fun n hn => hscopes n (List.mem_append_left _ hn)

/-- On the way up nodes are taken off that were made, one after the other. -/
theorem prune (h : Proper F s r) (hn : n = .root ∨ n ∈ containersMade r.history) (steps : Nat) :
    Proper F s (Run.prune steps n r) := by
  induction steps generalizing n r with
  | zero => exact h
  | succ steps ih =>
    unfold Run.prune
    split
    · exact h
    · rename_i hfull
      simp only [Bool.or_eq_true, decide_eq_true_eq, not_or] at hfull
      have hmade := mem_nodesMade_of_container (hn.resolve_left hfull.1)
      split
      · exact ih (h.remove hmade ‹_› (Nat.eq_zero_of_not_pos hfull.2)) (h.place hmade ‹_›)
      · exact h

/-- A run stays proper when it takes off a glyph and what that leaves empty. -/
theorem takeOff (h : Proper F s r) (hs : F.Ok s) (hn : n ∈ glyphsMade r.history) :
    Proper F s (r.takeOff n) := by
  have hmade := mem_nodesMade_of_glyph hn
  unfold Run.takeOff
  split
  · exact (h.remove hmade ‹_› (h.used.childCount_glyph hs hn)).prune (h.place hmade ‹_›) _
  · exact h

/-- A run stays proper when it erases. -/
theorem erase (h : Proper F s r) (hs : F.Ok s) : Proper F s (r.made .erase) := by
  cases hl : r.ledger with
  | nil => rwa [made_erase_of_nil hl]
  | cons node ledger =>
    have hledger := h.ledger
    rw [hl] at hledger
    have hrest : Proper F s { r with ledger } :=
      ⟨h.used, h.scopes, fun n hn => hledger n (List.mem_cons_of_mem _ hn)⟩
    obtain ⟨hused, hscopes, hledger'⟩ := hrest.takeOff hs (hledger node List.mem_cons_self)
    rw [made_erase_of_cons hl]
    exact ⟨hused, hscopes, hledger'⟩

/-- Each stroke uses the surface well. -/
theorem made (h : Proper F s r) (hs : F.Ok s) (x : Stroke) : Proper F s (r.made x) := by
  cases x with
  | type value => exact h.type value
  | opening tag => exact h.opening tag
  | closing tag => exact h.closing tag
  | erase => exact h.erase hs
  | pause | enter | turn => exact ⟨h.used, h.scopes, h.ledger⟩
  | hold => exact h

/-- A run stays proper when it waits. -/
theorem of_waits (h : Proper F s r) (hw : Waits r r') : Proper F s r' := by
  obtain ⟨waits, hhistory, hwaits⟩ := hw.history
  have hused := h.used.waits hwaits
  rw [← hw.surface, ← hhistory] at hused
  refine ⟨hused, fun n hn => ?_, fun n hn => ?_⟩
  · obtain ⟨tag, hmem⟩ := mem_containersMade.1 (h.scopes n (hw.scopes ▸ hn))
    exact mem_containersMade.2 ⟨tag, hhistory ▸ List.mem_append_right _ hmem⟩
  · rw [hhistory, glyphsMade_append]
    exact List.mem_append_right _ (h.ledger n (hw.ledger ▸ hn))

/-! ### The way up is never cut short -/

/-- There are not more steps on the way up from a node than there are nodes that were made and not
taken off. -/
theorem prune_eq (h : Proper F s r) (hn : n = .root ∨ n ∈ containersMade r.history)
    {steps steps' : Nat}
    (hsteps : (nodesMade r.history).length < steps + (nodesTakenOff r.history).length)
    (hsteps' : (nodesMade r.history).length < steps' + (nodesTakenOff r.history).length) :
    Run.prune steps n r = Run.prune steps' n r := by
  have hle {q : Run σ} (hq : Proper F s q) :
      (nodesTakenOff q.history).length ≤ (nodesMade q.history).length :=
    (List.subperm_of_subset hq.used.taken_nodup hq.used.taken).length_le
  induction steps generalizing n r steps' with
  | zero =>
    have := hle h
    omega
  | succ steps ih =>
    obtain ⟨steps', rfl⟩ : ∃ k, steps' = k + 1 :=
      Nat.exists_eq_add_of_le' (by have := hle h; omega)
    unfold Run.prune
    split
    · rfl
    · rename_i hfull
      simp only [Bool.or_eq_true, decide_eq_true_eq, not_or] at hfull
      have hmade := mem_nodesMade_of_container (hn.resolve_left hfull.1)
      split
      · rename_i parent hp
        have hnext := h.remove hmade hp (Nat.eq_zero_of_not_pos hfull.2)
        have hfewer {k : Nat}
            (hk : (nodesMade r.history).length < k + 1 + (nodesTakenOff r.history).length) :
            (nodesMade r.history).length < k + (n :: nodesTakenOff r.history).length := by
          rw [List.length_cons]
          omega
        exact ih hnext (h.place hmade hp) (hfewer hsteps) (hfewer hsteps')
      · rfl

/-- However many more steps are allowed, the way up from an erased glyph ends where it does. -/
theorem takeOff_eq (h : Proper F s r) (hs : F.Ok s) (hn : n ∈ glyphsMade r.history)
    (hp : Surface.parent? r.surface n = some p) {steps : Nat} (hsteps : r.history.length < steps) :
    r.takeOff n = Run.prune steps p (r.remove p n) := by
  have hmade := mem_nodesMade_of_glyph hn
  have hle : (nodesMade r.history).length ≤ r.history.length := List.length_filterMap_le ..
  unfold Run.takeOff
  rw [hp]
  refine (h.remove hmade hp (h.used.childCount_glyph hs hn)).prune_eq (h.place hmade hp) ?_ ?_
  · exact Nat.lt_add_right _ (Nat.lt_succ_of_le hle)
  · exact Nat.lt_add_right _ (Nat.lt_of_le_of_lt hle hsteps)

end Proper

end Run

/-! ## Runs -/

/-- **A run uses its surface well**, whenever it is cancelled and whatever it types: on a surface that
reports faithfully, each node that it makes is new and is hung up once, directly after it was made, from
the root or from a container of its own; a node is taken off the node that it hangs from, once, and when
nothing hangs from it; and no other node is touched. -/
theorem typeTokens_honours {σ : Type} [Surface σ] (F : Faithful σ) (pace : Pace) (cancel : Cancel)
    (ts : List Token) {s : σ} (hs : F.Ok s) :
    let out := typeTokens pace cancel ts s
    out.final.surface = out.acts.foldl Act.onto s ∧ Honours F s out.acts := by
  intro out
  have hmade (x : Stroke) (r : Run σ) (h : r.Proper F s) : (r.made x).Proper F s := h.made hs x
  have hwaits (r r' : Run σ) (hw : Run.Waits r r') (h : r.Proper F s) : r'.Proper F s :=
    h.of_waits hw
  have hproper : out.final.Proper F s := by
    have hend := Run.strikeAll_run_keeps hmade hwaits pace (script ts) (.begin hs pace cancel)
    rwa [← Outcome.final_ofStep, ← Run.playAll_eq_strikeAll] at hend
  have hused : Used F s out.final.surface out.acts.reverse := by
    rw [Outcome.acts, List.reverse_reverse]
    exact hproper.used
  refine ⟨?_, hused.honours hs⟩
  rw [Outcome.acts, List.foldl_reverse]
  exact hproper.used.surface

/-- The root of this sheet hangs below itself. An erasure takes an open scope off, and what is typed then
is hung from it all the same. -/
theorem typeTokens_honours_disorder :
    let F : Faithful Sheet := keeps_self.faithful
    let s := Sheet.blank.append .root .root
    let ts : List Token :=
      [.scopeStart .bold, .delete [.text ['a']], .text ['b'], .scopeEnd .bold]
    let out := typeTokens .steady .never ts s
    F.Ok s ∧
      out.acts = [.container 1 .bold, .append 0 1, .glyph 2 'a', .append 1 2, .wait (.ofMillis 55),
        .wait (.ofMillis 160), .remove 1 2, .remove 0 1, .wait (.ofMillis 28),
        .glyph 3 'b', .append 1 3, .wait (.ofMillis 55)] ∧
      Honours F s out.acts := by
  intro F s ts out
  have hs : F.Ok s := Sheet.sound_blank.linked.append Nat.zero_lt_one Nat.zero_lt_one
  have hhonours := typeTokens_honours F .steady .never ts hs
  exact ⟨hs, by decide +kernel, hhonours.2⟩

end Typist
