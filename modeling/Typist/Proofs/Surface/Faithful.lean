import Typist.Proofs.Run.Twins
import Typist.Proofs.Sheet.Reachable

/-!
# Surfaces that report faithfully

A run relies on what its surface tells it of parents, of numbers of children and of tags. A surface
is faithful if what it tells is what was done to it, as long as it is used as it is meant to be: nodes
that it has given out are hung from the root or from a container while they hang nowhere, and taken
off the node that they hang from while nothing hangs from them. What it does with any other use is
left open, and so is what it tells of handles that it has not given out.

* `Surface.Gains`, `Surface.Relinks`, `Surface.Grows` — what making a node, linking one, and the one
  after the other leave as it was;
* `Faithful` — surfaces whose reports can be relied on;
* `Keeps.faithful` — those that keep a sheet are among them, sheets that others have used included.
-/

namespace Typist

namespace Surface

variable {σ : Type} [Surface σ]

/-- From one moment to the next a surface has given out one more node, with a tag or without, that
hangs nowhere; of the others it reports what it did. -/
structure Gains (Has : σ → Node → Prop) (s s' : σ) (n : Node) (tag : Option Tag) : Prop where
  new : ¬Has s n
  has_iff : ∀ m, Has s' m ↔ m = n ∨ Has s m
  parent? : parent? s' n = none
  parent?_old : ∀ m, Has s m → Surface.parent? s' m = Surface.parent? s m
  tag? : tag? s' n = tag
  tag?_old : ∀ m, Has s m → Surface.tag? s' m = Surface.tag? s m

/-- From one moment to the next one node hangs somewhere else; of the others a surface reports what
it did. -/
structure Relinks (Has : σ → Node → Prop) (s s' : σ) (n : Node) (parent : Option Node) : Prop where
  has_iff : ∀ m, Has s' m ↔ Has s m
  parent? : parent? s' n = parent
  parent?_old : ∀ m, Has s m → m ≠ n → Surface.parent? s' m = Surface.parent? s m
  tag?_old : ∀ m, Has s m → Surface.tag? s' m = Surface.tag? s m

/-- From one moment to the next a surface has given out one more node, with a tag or without, that
hangs from another one; of the others it reports what it did. -/
structure Grows (Has : σ → Node → Prop) (s s' : σ) (p n : Node) (tag : Option Tag) : Prop where
  new : ¬Has s n
  has_iff : ∀ m, Has s' m ↔ m = n ∨ Has s m
  parent? : parent? s' n = some p
  parent?_old : ∀ m, Has s m → Surface.parent? s' m = Surface.parent? s m
  tag? : tag? s' n = tag
  tag?_old : ∀ m, Has s m → Surface.tag? s' m = Surface.tag? s m

/-- What one new link changes: a node that was just given out is hung up, and that is all. -/
theorem Gains.relinked {Has : σ → Node → Prop} {s t u : σ} {p n : Node} {tag : Option Tag}
    (h : Gains Has s t n tag) (hlink : Relinks Has t u n (some p)) : Grows Has s u p n tag where
  new := h.new
  has_iff m := (hlink.has_iff m).trans (h.has_iff m)
  parent? := hlink.parent?
  parent?_old m hm := by
    have hne : m ≠ n := fun heq => h.new (heq ▸ hm)
    exact (hlink.parent?_old m ((h.has_iff m).2 (.inr hm)) hne).trans (h.parent?_old m hm)
  tag? := (hlink.tag?_old n ((h.has_iff n).2 (.inl rfl))).trans h.tag?
  tag?_old m hm := (hlink.tag?_old m ((h.has_iff m).2 (.inr hm))).trans (h.tag?_old m hm)

end Surface

/-- What it takes for the reports of a surface to be relied on. -/
structure Faithful (σ : Type) [Surface σ] where
  /-- the states that the surface can be in -/
  Ok : σ → Prop
  /-- the nodes that it has given out, and the root -/
  Has : σ → Node → Prop
  root : ∀ {s}, Ok s → Has s .root
  /-- what a node is reported to hang from is a node -/
  parent : ∀ {s n p}, Ok s → Has s n → Surface.parent? s n = some p → Has s p
  /-- as many children are reported as there are nodes that are reported to hang there -/
  childCount : ∀ {s n}, Ok s → Has s n → ∃ ms : List Node, ms.Nodup ∧
    (∀ m, m ∈ ms ↔ Has s m ∧ Surface.parent? s m = some n) ∧ Surface.childCount s n = ms.length
  createGlyph : ∀ {s} value, Ok s →
    Ok (Surface.createGlyph s value).2 ∧
      Surface.Gains Has s (Surface.createGlyph s value).2 (Surface.createGlyph s value).1 none
  createContainer : ∀ {s} tag, Ok s →
    Ok (Surface.createContainer s tag).2 ∧
      Surface.Gains Has s (Surface.createContainer s tag).2 (Surface.createContainer s tag).1
        (some tag)
  append : ∀ {s p c}, Ok s → Has s p → (p = .root ∨ (Surface.tag? s p).isSome) → Has s c →
    Surface.parent? s c = none →
    Ok (Surface.append s p c) ∧ Surface.Relinks Has s (Surface.append s p c) c (some p)
  remove : ∀ {s p c}, Ok s → Has s c → Surface.parent? s c = some p → Surface.childCount s c = 0 →
    Ok (Surface.remove s p c) ∧ Surface.Relinks Has s (Surface.remove s p c) c none

namespace Faithful

variable {σ : Type} [Surface σ] (F : Faithful σ) {s : σ} {n m : Node}

/-- A node that is reported to have no children has none. -/
theorem parent?_ne_of_childCount (hs : F.Ok s) (hn : F.Has s n)
    (hempty : Surface.childCount s n = 0) (hm : F.Has s m) : Surface.parent? s m ≠ some n := by
  intro hp
  obtain ⟨ms, -, hmem, hcount⟩ := F.childCount hs hn
  rw [List.eq_nil_of_length_eq_zero (hcount.symm.trans hempty)] at hmem
  exact List.not_mem_nil ((hmem m).2 ⟨hm, hp⟩)

/-- A node that has no children is reported to have none. -/
theorem childCount_eq_zero (hs : F.Ok s) (hn : F.Has s n)
    (h : ∀ m, F.Has s m → Surface.parent? s m ≠ some n) : Surface.childCount s n = 0 := by
  obtain ⟨ms, -, hmem, hcount⟩ := F.childCount hs hn
  rw [hcount, List.length_eq_zero_iff, List.eq_nil_iff_forall_not_mem]
  intro m hm
  obtain ⟨hhas, hp⟩ := (hmem m).1 hm
  exact h m hhas hp

end Faithful

/-! ## Sheets -/

/-- The tag that a node of a kind has. -/
def Kind.tag? : Kind → Option Tag
  | .container tag => some tag
  | .root | .glyph _ => none

namespace Sheet

variable {s : Sheet} {p c : Node}

/-- The nodes of a sheet. -/
def Has (s : Sheet) (n : Node) : Prop :=
  n < s.size

/-- A new node of a sheet hangs nowhere, and has the tag that it was made with. -/
theorem gains (s : Sheet) (k : Kind) :
    Surface.Gains Has s (s.create k).2 (s.create k).1 k.tag? where
  new := Nat.lt_irrefl s.size
  has_iff m := by
    change m < (s.create k).2.size ↔ m = s.size ∨ m < s.size
    rw [size_create, Nat.lt_succ_iff_lt_or_eq, or_comm]
  parent? := by
    change ((s.create k).2.slot s.size).parent = none
    rw [slot_create, if_pos rfl]
  parent?_old m hm := by
    change ((s.create k).2.slot m).parent = (s.slot m).parent
    rw [slot_create, if_neg (Nat.ne_of_lt hm)]
  tag? := by
    change (s.create k).2.tag? s.size = _
    rw [tag?, kind, slot_create, if_pos rfl]
    cases k <;> rfl
  tag?_old m hm := by
    change (s.create k).2.tag? m = s.tag? m
    rw [tag?, kind, slot_create, if_neg (Nat.ne_of_lt hm)]
    rfl

theorem relinks_append (hp : p < s.size) (hc : c < s.size) (hnone : s.parent? c = none) :
    Surface.Relinks Has s (s.append p c) c (some p) := by
  have hdetach : s.detach c = s := by rw [detach, hnone]
  refine ⟨fun m => ?_, ?_, fun m _ hm => ?_, fun m _ => ?_⟩
  · rw [Has, size_append, Has]
  · change ((s.append p c).slot c).parent = some p
    rw [slot_append hp hc]
    exact if_pos rfl
  · change ((s.append p c).slot m).parent = (s.slot m).parent
    rw [slot_append hp hc, hdetach]
    exact if_neg hm
  · change (s.append p c).tag? m = s.tag? m
    rw [tag?, kind, slot_append hp hc, hdetach]
    rfl

theorem Linked.relinks_remove (h : Linked s) (hp : s.parent? c = some p) :
    Surface.Relinks Has s (s.remove p c) c none := by
  have hmem := h.mem_iff.2 hp
  have hc := lt_size_of_parent? hp
  refine ⟨fun m => ?_, ?_, fun m _ hm => ?_, fun m _ => ?_⟩
  · rw [Has, size_remove, Has]
  · exact (parent?_remove hmem hc c).trans (if_pos rfl)
  · exact (parent?_remove hmem hc m).trans (if_neg hm)
  · change (s.remove p c).tag? m = s.tag? m
    rw [tag?, kind_remove hmem hc]
    rfl

end Sheet

namespace Surface

variable {σ : Type} [Surface σ] {sheet : σ → Sheet}

theorem Gains.of_sheet (h : Keeps sheet) {s s' : σ} {n : Node} {tag : Option Tag}
    (hg : Gains Sheet.Has (sheet s) (sheet s') n tag) :
    Gains (fun s => (sheet s).Has) s s' n tag where
  new := hg.new
  has_iff := hg.has_iff
  parent? := by
    rw [← h.parent?]
    exact hg.parent?
  parent?_old m hm := by
    rw [← h.parent?, ← h.parent?]
    exact hg.parent?_old m hm
  tag? := by
    rw [← h.tag?]
    exact hg.tag?
  tag?_old m hm := by
    rw [← h.tag?, ← h.tag?]
    exact hg.tag?_old m hm

theorem Relinks.of_sheet (h : Keeps sheet) {s s' : σ} {n : Node} {parent : Option Node}
    (hg : Relinks Sheet.Has (sheet s) (sheet s') n parent) :
    Relinks (fun s => (sheet s).Has) s s' n parent where
  has_iff := hg.has_iff
  parent? := by
    rw [← h.parent?]
    exact hg.parent?
  parent?_old m hm hne := by
    rw [← h.parent?, ← h.parent?]
    exact hg.parent?_old m hm hne
  tag?_old m hm := by
    rw [← h.tag?, ← h.tag?]
    exact hg.tag?_old m hm

end Surface

/-- What makes a node on the sheet of a surface makes it on the surface. -/
theorem Keeps.gains {σ : Type} [Surface σ] {sheet : σ → Sheet} (h : Keeps sheet) {s s' : σ} {n : Node}
    {k : Kind} (hmade : (sheet s).create k = (n, sheet s')) (hs : (sheet s).Linked) :
    (sheet s').Linked ∧ Surface.Gains (fun s => (sheet s).Has) s s' n k.tag? := by
  have hlinked := hs.create k
  have hgains := (sheet s).gains k
  rw [hmade] at hlinked hgains
  exact ⟨hlinked, .of_sheet h hgains⟩

/-- A surface that keeps a sheet reports faithfully, whoever has used the sheet before. -/
def Keeps.faithful {σ : Type} [Surface σ] {sheet : σ → Sheet} (h : Keeps sheet) : Faithful σ where
  Ok s := (sheet s).Linked
  Has s := (sheet s).Has
  root hs := hs.pos
  parent := by
    intro s n p hs _ hp
    rw [← h.parent?] at hp
    exact Sheet.lt_size_of_mem (hs.mem_iff.2 hp)
  childCount := by
    intro s n hs _
    refine ⟨((sheet s).slot n).lastFirst, hs.nodup n, fun m => ?_, ?_⟩
    · rw [hs.mem_iff, ← h.parent?]
      exact ⟨fun hp => ⟨Sheet.lt_size_of_parent? hp, hp⟩, And.right⟩
    · rw [← h.childCount]
      rfl
  createGlyph value hs := h.gains (h.createGlyph _ value) hs
  createContainer tag hs := h.gains (h.createContainer _ tag) hs
  append := by
    intro s p c hs hp _ hc hnone
    rw [← h.parent?] at hnone
    have hsheet := h.append s p c
    refine ⟨hsheet ▸ hs.append hp hc, .of_sheet h ?_⟩
    rw [← hsheet]
    exact Sheet.relinks_append hp hc hnone
  remove := by
    intro s p c hs _ hp _
    rw [← h.parent?] at hp
    have hsheet := h.remove s p c
    refine ⟨hsheet ▸ hs.remove p c, .of_sheet h ?_⟩
    rw [← hsheet]
    exact hs.relinks_remove hp

end Typist
