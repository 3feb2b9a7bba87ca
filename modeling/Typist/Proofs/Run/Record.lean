import Mathlib.Data.List.Sort
import Typist.Proofs.Run.Cancellation
import Typist.Proofs.Run.Shape

/-!
# The ledger on record

What a run has typed and erased can be read off its acts: it makes a glyph for each character that it
types, and takes the glyph off when it erases the character. The ledger is what is left, in the order
of the acts, and no node is ever taken off twice.

* `glyphsMade`, `nodesTakenOff` — what acts say of glyphs;
* `Run.Recorded` — the acts of a run tell which nodes are glyphs, and which hang nowhere;
* `Run.Recorded.ledger_eq` — the ledger, told by the acts;
* `Run.Erased`, `Run.erased_strikeAll` — what an erasure takes off, told by the ledger.
-/

namespace Typist

/-- The glyphs that acts make, in their order. -/
def glyphsMade (acts : List Act) : List Node :=
  acts.filterMap fun act => match act with
    | .glyph node _ => some node
    | _ => none

/-- The nodes that acts take off, in their order. -/
def nodesTakenOff (acts : List Act) : List Node :=
  acts.filterMap fun act => match act with
    | .remove _ node => some node
    | _ => none

section

variable (as bs : List Act)

@[simp] theorem glyphsMade_append : glyphsMade (as ++ bs) = glyphsMade as ++ glyphsMade bs :=
  List.filterMap_append

@[simp] theorem nodesTakenOff_append :
    nodesTakenOff (as ++ bs) = nodesTakenOff as ++ nodesTakenOff bs :=
  List.filterMap_append

@[simp] theorem glyphsMade_reverse : glyphsMade as.reverse = (glyphsMade as).reverse :=
  List.filterMap_reverse

@[simp] theorem nodesTakenOff_reverse : nodesTakenOff as.reverse = (nodesTakenOff as).reverse :=
  List.filterMap_reverse

end

/-- Acts that only wait make nothing and take nothing off. -/
theorem glyphsMade_of_waits {acts : List Act} (h : ∀ act ∈ acts, act.delay?.isSome) :
    glyphsMade acts = [] ∧ nodesTakenOff acts = [] := by
  induction acts with
  | nil => exact ⟨rfl, rfl⟩
  | cons act acts ih =>
    have hact := h act List.mem_cons_self
    have hacts := ih fun act hmem => h act (List.mem_cons_of_mem _ hmem)
    cases act with
    | wait => exact hacts
    | glyph | container | append | remove => simp [Act.delay?] at hact

namespace Run

/-- What is on record of a run on a sheet: its glyphs, the newest first, and the nodes that hang
nowhere, each of which was taken off once. -/
structure Recorded (r : Run Sheet) : Prop where
  mem_glyphs : ∀ {u}, u ∈ glyphsMade r.history ↔ ∃ value, r.surface.kind u = .glyph value
  glyphs_sorted : (glyphsMade r.history).Pairwise (· > ·)
  mem_taken : ∀ {n : Node}, n ∈ nodesTakenOff r.history ↔
    n < r.surface.size ∧ n ≠ .root ∧ r.surface.parent? n = none
  taken_nodup : (nodesTakenOff r.history).Nodup

namespace Recorded

variable {r r' : Run Sheet}

/-- Only the surface, the glyphs made and the nodes taken off matter. -/
theorem of_eq (h : Recorded r) (hs : r'.surface = r.surface)
    (hg : glyphsMade r'.history = glyphsMade r.history)
    (ht : nodesTakenOff r'.history = nodesTakenOff r.history) : Recorded r' where
  mem_glyphs := by
    rw [hg, hs]
    exact h.mem_glyphs
  glyphs_sorted := hg ▸ h.glyphs_sorted
  mem_taken := by
    rw [ht, hs]
    exact h.mem_taken
  taken_nodup := ht ▸ h.taken_nodup

/-- Waits leave the record as it is. -/
theorem of_waits (h : Recorded r) (hw : Waits r r') : Recorded r' := by
  obtain ⟨waits, hhistory, hwaits⟩ := hw.history
  obtain ⟨hmade, htaken⟩ := glyphsMade_of_waits hwaits
  refine h.of_eq hw.surface ?_ ?_
  · rw [hhistory, glyphsMade_append, hmade, List.nil_append]
  · rw [hhistory, nodesTakenOff_append, htaken, List.nil_append]

/-- A new node hangs somewhere. -/
theorem mem_taken_hang (h : Recorded r) {p : Node} (hp : p < r.surface.size) (k : Kind) {n : Node} :
    n ∈ nodesTakenOff r.history ↔
      n < (r.surface.hang p k).size ∧ n ≠ .root ∧ (r.surface.hang p k).parent? n = none := by
  rw [h.mem_taken, Sheet.size_hang, Sheet.parent?_hang hp]
  by_cases hn : n = r.surface.size
  · simp [hn]
  · rw [if_neg hn]
    exact and_congr_left fun _ => by grind

/-- A typed glyph is on record, and hangs from where it was hung. -/
theorem type (h : Recorded r) (hr : Shaped r) (value : Char) :
    Recorded (r.made (.type value)) where
  mem_glyphs := by
    intro u
    change u ∈ r.surface.size :: glyphsMade r.history ↔
      ∃ v, (r.surface.hang r.current (.glyph value)).kind u = .glyph v
    rw [List.mem_cons, h.mem_glyphs, Sheet.kind_hang hr.accepts_current.lt_size]
    by_cases hu : u = r.surface.size
    · simp [hu]
    · simp [hu]
  glyphs_sorted := by
    refine List.pairwise_cons.2 ⟨fun u hu => ?_, h.glyphs_sorted⟩
    obtain ⟨v, hv⟩ := h.mem_glyphs.1 hu
    exact Sheet.lt_size_of_glyph hv
  mem_taken := h.mem_taken_hang hr.accepts_current.lt_size _
  taken_nodup := h.taken_nodup

/-- A container that is hung up changes nothing of the glyphs. -/
theorem opening (h : Recorded r) (hr : Shaped r) (tag : Tag) :
    Recorded (r.made (.opening tag)) where
  mem_glyphs := by
    intro u
    change u ∈ glyphsMade r.history ↔
      ∃ v, (r.surface.hang r.current (.container tag)).kind u = .glyph v
    rw [h.mem_glyphs, Sheet.kind_hang hr.accepts_current.lt_size]
    by_cases hu : u = r.surface.size
    · have hroot : r.surface.kind u = .root := by
        rw [Sheet.kind, Sheet.slot_of_size_le (Nat.le_of_eq hu.symm)]
      simp [hu ▸ hroot, hu]
    · simp [hu]
  glyphs_sorted := h.glyphs_sorted
  mem_taken := h.mem_taken_hang hr.accepts_current.lt_size _
  taken_nodup := h.taken_nodup

/-- What is taken off its parent had not been taken off before. -/
theorem remove (h : Recorded r) (hs : r.surface.Sound) {p c : Node}
    (hp : r.surface.parent? c = some p) : Recorded (r.remove p c) where
  mem_glyphs := by
    intro u
    change u ∈ glyphsMade r.history ↔ ∃ v, (r.surface.remove p c).kind u = .glyph v
    rw [hs.kind_remove hp, h.mem_glyphs]
  glyphs_sorted := h.glyphs_sorted
  mem_taken := by
    intro n
    change n ∈ c :: nodesTakenOff r.history ↔
      n < (r.surface.remove p c).size ∧ n ≠ .root ∧ (r.surface.remove p c).parent? n = none
    rw [List.mem_cons, h.mem_taken, Sheet.size_remove, hs.parent?_remove hp]
    by_cases hn : n = c
    · simp [hn, Sheet.lt_size_of_parent? hp, hs.ne_root hp]
    · simp [hn]
  taken_nodup := by
    refine List.nodup_cons.2 ⟨fun hmem => ?_, h.taken_nodup⟩
    rw [(h.mem_taken.1 hmem).2.2] at hp
    cases hp

/-- A stroke is put on record. -/
theorem made (h : Recorded r) (hr : Shaped r) (x : Stroke) : Recorded (r.made x) := by
  have hremove (q : Run Sheet) (p c : Node) (hp : q.surface.parent? c = some p)
      (hq : Recorded q ∧ q.surface.Sound) :
      Recorded (q.remove p c) ∧ (q.remove p c).surface.Sound :=
    ⟨hq.1.remove hq.2 hp, hq.2.remove hp⟩
  cases x with
  | type value => exact h.type hr value
  | opening tag => exact h.opening hr tag
  | closing tag =>
    simp only [Run.made, closeScope]
    split
    · exact h.of_eq rfl rfl rfl
    · rename_i closed kept _
      have hrest : Recorded { r with scopes := kept } := h.of_eq rfl rfl rfl
      exact (foldl_removeIfEmpty_keeps hremove closed ⟨hrest, hr.sound⟩).1
  | erase =>
    simp only [Run.made]
    split
    · exact h
    · rename_i node ledger _
      have hrest : Recorded { r with ledger } := h.of_eq rfl rfl rfl
      exact (takeOff_keeps hremove node ⟨hrest, hr.sound⟩).1.of_eq rfl rfl rfl
  | pause | enter | turn => exact h.of_eq rfl rfl rfl
  | hold => exact h

/-- The ledger holds the glyphs that were made and not taken off, the newest first. -/
theorem ledger_eq (h : Recorded r) (hr : Shaped r) :
    r.ledger = (glyphsMade r.history).filter (· ∉ nodesTakenOff r.history) := by
  refine hr.ledger_sorted.eq_of_mem_iff (h.glyphs_sorted.filter _) fun u => ?_
  rw [hr.mem_ledger, List.mem_filter, h.mem_glyphs, decide_eq_true_eq, h.mem_taken]
  refine and_congr_right fun ⟨value, hk⟩ => not_congr ?_
  simp [Sheet.lt_size_of_glyph hk, hr.sound.ne_root_of_glyph hk]

end Recorded

/-- Nothing has been done at the beginning, and nothing is on record. -/
theorem recorded_begin (pace : Pace) (cancel : Cancel) :
    Recorded (.begin pace cancel Sheet.blank) where
  mem_glyphs := by
    intro u
    refine iff_of_false List.not_mem_nil ?_
    rintro ⟨value, hk⟩
    have hu : u < Sheet.blank.size := Sheet.lt_size_of_glyph hk
    cases Nat.lt_one_iff.1 hu
    cases hk
  glyphs_sorted := .nil
  mem_taken := by
    intro n
    refine iff_of_false List.not_mem_nil ?_
    rintro ⟨hn, hroot, -⟩
    exact hroot (Nat.lt_one_iff.1 hn)
  taken_nodup := .nil

/-- The record is right behind any strokes. -/
theorem recorded_strikeAll {pace : Pace} {xs : List Stroke} {r r' : Run Sheet} (h : Recorded r)
    (hr : Shaped r) (hgo : r.strikeAll pace xs = .goes r') : Recorded r' := by
  let I : List Stroke → Draft → Run Sheet → Prop := fun _ _ r => Recorded r ∧ Shaped r
  have hmade (x xs d r) (h : I (x :: xs) d r) : I xs (d.strike x) (r.made x) :=
    ⟨h.1.made h.2 x, h.2.made x⟩
  have hwaits (xs d r r') (hw : Waits r r') (h : I xs d r) : I xs d r' :=
    ⟨h.1.of_waits hw, h.2.of_waits hw⟩
  exact (strikeAll_keeps (d := {}) hmade hwaits ⟨h, hr⟩ hgo).1

/-! ## What an erasure takes off -/

/-- A run that has only erased since it stood like `a`: the glyphs that it has taken off are those
that the ledger has lost, the newest one first. -/
def Erased (a r : Run Sheet) : Prop :=
  ∃ acts, r.history = acts ++ a.history ∧ glyphsMade acts = [] ∧
    a.ledger = ((nodesTakenOff acts).filter (· ∈ glyphsMade a.history)).reverse ++ r.ledger

namespace Erased

variable {a q r : Run Sheet}

/-- Nothing erased is nothing on record. -/
theorem refl (a : Run Sheet) : Erased a a :=
  ⟨[], rfl, rfl, rfl⟩

/-- What is erased in two steps is on record in their order. -/
theorem trans (h : Erased a q) (h' : Erased q r) : Erased a r := by
  obtain ⟨acts, hacts, hmade, hledger⟩ := h
  obtain ⟨more, hmore, hmade', hledger'⟩ := h'
  refine ⟨more ++ acts, by rw [hmore, hacts, List.append_assoc], by simp [hmade, hmade'], ?_⟩
  rw [hacts, glyphsMade_append, hmade, List.nil_append] at hledger'
  rw [hledger, hledger']
  simp

/-- Waiting erases nothing. -/
theorem of_waits (hw : Waits q r) : Erased q r := by
  obtain ⟨waits, hhistory, hwaits⟩ := hw.history
  obtain ⟨hmade, htaken⟩ := glyphsMade_of_waits hwaits
  exact ⟨waits, hhistory, hmade, by simp [htaken, hw.ledger]⟩

end Erased

/-- Erasing makes no glyph. -/
theorem exists_history_erase {σ : Type} [Surface σ] (r : Run σ) :
    ∃ acts, (r.made .erase).history = acts ++ r.history ∧ glyphsMade acts = [] := by
  cases hl : r.ledger with
  | nil => exact ⟨[], by rw [made_erase_of_nil hl]; rfl, rfl⟩
  | cons node ledger =>
    let I : Run σ → Prop := fun q => ∃ acts, q.history = acts ++ r.history ∧ glyphsMade acts = []
    have hremove (q : Run σ) (p c : Node) (_ : Surface.parent? q.surface c = some p) :
        I q → I (q.remove p c)
      | ⟨acts, hq, hmade⟩ => ⟨.remove p c :: acts, congrArg (List.cons _) hq, hmade⟩
    have hstart : I { r with ledger } := ⟨[], rfl, rfl⟩
    rw [made_erase_of_cons hl]
    exact takeOff_keeps hremove node hstart

/-- An erasure takes off one glyph, the last one of the ledger. -/
theorem Recorded.erased_made {r : Run Sheet} (h : Recorded r) (hr : Shaped r) :
    Erased r (r.made .erase) := by
  obtain ⟨acts, hacts, hmade⟩ := r.exists_history_erase
  refine ⟨acts, hacts, hmade, ?_⟩
  have h' := h.made hr .erase
  have hledger := h.ledger_eq hr
  have hledger' := h'.ledger_eq (hr.made .erase)
  have hnodup := h'.taken_nodup
  rw [hacts, glyphsMade_append, nodesTakenOff_append, hmade, List.nil_append] at hledger'
  rw [hacts, nodesTakenOff_append, List.nodup_append'] at hnodup
  cases hl : r.ledger with
  | nil =>
    rw [made_erase_of_nil hl] at hacts ⊢
    obtain rfl : acts = [] := by simpa using hacts
    rw [hl]
    rfl
  | cons node ledger =>
    obtain ⟨-, -, -, -, hrest, -⟩ := hr.made_erase hl
    rw [hrest] at hledger' ⊢
    have hsorted := hr.ledger_sorted
    rw [hl] at hledger hsorted
    have hnot : node ∉ ledger := fun hmem =>
      Nat.lt_irrefl _ ((List.pairwise_cons.1 hsorted).1 node hmem)
    -- the glyphs that the ledger has lost are those that were taken off now
    have hmem : ∀ u, u ∈ (nodesTakenOff acts).filter (· ∈ glyphsMade r.history) ↔ u ∈ [node] := by
      intro u
      have hu := congrArg (u ∈ ·) hledger
      have hu' := congrArg (u ∈ ·) hledger'
      have hdisjoint : u ∈ nodesTakenOff acts → u ∉ nodesTakenOff r.history :=
        fun hmem => hnodup.2.2 hmem
      simp only [List.mem_filter, List.mem_append, decide_eq_true_eq, List.mem_cons] at hu hu' ⊢
      grind
    have hperm := (List.perm_ext_iff_of_nodup (hnodup.1.filter _) (List.nodup_singleton node)).2 hmem
    rw [List.perm_singleton.1 hperm]
    rfl

/-- Erasures take off the last glyphs of the ledger, one after the other. -/
theorem erased_strikeAll {pace : Pace} {xs : List Stroke} {a r : Run Sheet} (ha : Recorded a)
    (hshaped : Shaped a) (hxs : ∀ x ∈ xs, x = .erase) (hgo : a.strikeAll pace xs = .goes r) :
    Erased a r := by
  let I : List Stroke → Draft → Run Sheet → Prop := fun xs _ r =>
    (∀ x ∈ xs, x = .erase) ∧ Recorded r ∧ Shaped r ∧ Erased a r
  have hmade (x xs d r) (h : I (x :: xs) d r) : I xs (d.strike x) (r.made x) := by
    obtain ⟨hxs, hrecorded, hr, herased⟩ := h
    obtain rfl := hxs x List.mem_cons_self
    exact ⟨fun y hy => hxs y (List.mem_cons_of_mem _ hy), hrecorded.made hr .erase, hr.made .erase,
      herased.trans (hrecorded.erased_made hr)⟩
  have hwaits (xs d r r') (hw : Waits r r') (h : I xs d r) : I xs d r' :=
    ⟨h.1, h.2.1.of_waits hw, h.2.2.1.of_waits hw, h.2.2.2.trans (.of_waits hw)⟩
  exact (strikeAll_keeps (d := {}) hmade hwaits ⟨hxs, ha, hshaped, .refl a⟩ hgo).2.2.2

end Run

end Typist
