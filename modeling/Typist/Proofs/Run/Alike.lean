import Typist.Proofs.Run.Shape
import Typist.Proofs.Sheet.Alike

/-!
# Runs that are alike

Two runs that do the same strokes on sheets that are alike, each in its own pace and with its own
cancellation, do the same to both: a run asks its sheet for nothing that would tell the two apart.

* `Run.Alike` — the sheets are alike, and the scopes and ledgers are the same up to the handles;
* `Run.Alike.made` — a stroke keeps two runs alike;
* `Run.Alike.strikeAll` — so do strokes, if both runs do them all.
-/

namespace Typist

namespace Run

/-- The second run stands on its sheet as the first one does on its own, with the handles
changed. -/
structure Alike (base d : Nat) (old : List Node) (a b : Run Sheet) : Prop where
  surface : Sheet.Alike base d old a.surface b.surface
  scopes : b.scopes = a.scopes.map (shift base d)
  ledger : b.ledger = a.ledger.map (shift base d)
  /-- the second run has done enough to look as far up as the first one -/
  size_le : a.surface.size ≤ b.history.length + 1

variable {base d : Nat} {old : List Node} {a b : Run Sheet}

section

/-! ### Taking like nodes off

What holds of two runs on sheets that are alike, and still holds when both take a like node off its
parent, holds when both erase a character or close scopes. -/

variable {R : Run Sheet → Run Sheet → Prop}
  (hlike : ∀ {a b}, R a b → a.surface.Sound ∧ Sheet.Alike base d old a.surface b.surface)
  (hremove : ∀ {a b p c}, R a b → a.surface.parent? c = some p →
    R (a.remove p c) (b.remove (shift base d p) (shift base d c)))
include hlike hremove

/-- The way up from like nodes. How far up a run looks does not matter, if that is further than the
node is from the root. -/
theorem prune_alike (h : R a b) {node steps steps' : Nat} (hn : node < a.surface.size)
    (hlt : node < steps) (hlt' : node < steps') :
    R (prune steps node a) (prune steps' (shift base d node) b) := by
  obtain ⟨hs, halike⟩ := hlike h
  induction steps generalizing steps' node a b with
  | zero => exact absurd hlt (Nat.not_lt_zero _)
  | succ steps ih =>
    obtain ⟨steps', rfl⟩ := Nat.exists_eq_add_of_le' (Nat.lt_of_le_of_lt (Nat.zero_le _) hlt')
    by_cases hroot : node = Node.root
    · subst hroot
      rw [shift_root halike.pos]
      exact h
    · have hcount : Surface.childCount b.surface (shift base d node) =
          Surface.childCount a.surface node := halike.childCount_eq hn hroot
      have hparent : Surface.parent? b.surface (shift base d node) =
          (Surface.parent? a.surface node).map (shift base d) := halike.parent?_eq node hn hroot
      unfold prune
      simp only [hcount, hparent, shift_eq_root_iff halike.pos]
      -- both runs stop here, or both take the node off and go on
      split
      · exact h
      · cases hp : Surface.parent? a.surface node with
        | none => exact h
        | some p =>
          have hup : p < node := hs.older hp
          have hn' : p < (a.surface.remove p node).size := by
            rw [Sheet.size_remove]
            exact Nat.lt_trans hup hn
          have hrest := hremove h hp
          obtain ⟨hs', halike'⟩ := hlike hrest
          exact ih hrest hn' (Nat.lt_of_lt_of_le hup (Nat.le_of_lt_succ hlt))
            (Nat.lt_of_lt_of_le hup (Nat.le_of_lt_succ hlt')) hs' halike'

theorem takeOff_alike (h : R a b) (hsize : a.surface.size ≤ a.history.length + 1)
    (hsize' : a.surface.size ≤ b.history.length + 1) {node : Node} (hn : node < a.surface.size)
    (hroot : node ≠ .root) : R (takeOff node a) (takeOff (shift base d node) b) := by
  obtain ⟨hs, halike⟩ := hlike h
  have hparent : Surface.parent? b.surface (shift base d node) =
      (Surface.parent? a.surface node).map (shift base d) := halike.parent?_eq node hn hroot
  simp only [takeOff, hparent]
  cases hp : Surface.parent? a.surface node with
  | none => exact h
  | some p =>
    have hup : p < node := hs.older hp
    have hn' : p < (a.surface.remove p node).size := by
      rw [Sheet.size_remove]
      exact Nat.lt_trans hup hn
    exact prune_alike hlike hremove (hremove h hp) hn'
      (Nat.lt_trans hup (Nat.lt_of_lt_of_le hn hsize))
      (Nat.lt_trans hup (Nat.lt_of_lt_of_le hn hsize'))

theorem foldl_removeIfEmpty_alike (h : R a b) {nodes : List Node}
    (hnodes : ∀ n ∈ nodes, n < a.surface.size ∧ n ≠ .root) :
    R (nodes.foldl removeIfEmpty a) ((nodes.map (shift base d)).foldl removeIfEmpty b) := by
  induction nodes generalizing a b with
  | nil => exact h
  | cons node nodes ih =>
    obtain ⟨-, halike⟩ := hlike h
    obtain ⟨hn, hroot⟩ := hnodes node List.mem_cons_self
    have hrest := fun n hmem => hnodes n (List.mem_cons_of_mem _ hmem)
    have hcount : Surface.childCount b.surface (shift base d node) =
        Surface.childCount a.surface node := halike.childCount_eq hn hroot
    have hparent : Surface.parent? b.surface (shift base d node) =
        (Surface.parent? a.surface node).map (shift base d) := halike.parent?_eq node hn hroot
    rw [List.map_cons, List.foldl_cons, List.foldl_cons]
    unfold removeIfEmpty
    simp only [hcount, hparent]
    split
    · exact ih h hrest
    · cases hp : Surface.parent? a.surface node with
      | none => exact ih h hrest
      | some p =>
        refine ih (hremove h hp) fun n hmem => ?_
        change n < (a.surface.remove p node).size ∧ n ≠ .root
        rw [Sheet.size_remove]
        exact hrest n hmem

end

/-- Sheets that are alike are so when a like node is taken off. -/
theorem alike_remove {p c : Node}
    (h : a.surface.Sound ∧ Sheet.Alike base d old a.surface b.surface)
    (hp : a.surface.parent? c = some p) :
    (a.remove p c).surface.Sound ∧ Sheet.Alike base d old (a.remove p c).surface
      (b.remove (shift base d p) (shift base d c)).surface :=
  ⟨h.1.remove hp, h.2.remove h.1 hp⟩

/-- A close finds like scopes. -/
theorem closing?_alike (h : Sheet.Alike base d old a.surface b.surface) (tag : Tag)
    {scopes : List Node} (hscopes : ∀ n ∈ scopes, n < a.surface.size) :
    closing? b.surface tag (scopes.map (shift base d)) =
      (closing? a.surface tag scopes).map fun (closed, kept) =>
        (closed.map (shift base d), kept.map (shift base d)) := by
  induction scopes with
  | nil => rfl
  | cons n scopes ih =>
    have htag : Surface.tag? b.surface (shift base d n) = Surface.tag? a.surface n :=
      h.tag?_eq (hscopes n List.mem_cons_self)
    rw [List.map_cons, closing?, closing?, htag,
      ih fun m hmem => hscopes m (List.mem_cons_of_mem _ hmem)]
    split
    · rfl
    · rw [Option.map_map, Option.map_map]
      rfl

namespace Alike

theorem current_eq (h : Alike base d old a b) : b.current = shift base d a.current := by
  rw [current, current, h.scopes]
  cases a.scopes with
  | nil => exact (shift_root h.surface.pos).symm
  | cons n scopes => rfl

theorem hang (h : Alike base d old a b) (ha : Shaped a) (k : Kind) :
    Sheet.Alike base d old (a.surface.hang a.current k) (b.surface.hang b.current k) := by
  rw [h.current_eq]
  exact h.surface.hang ha.accepts_current.lt_size k

/-- A close is ignored by both, or closes like scopes. -/
theorem closing_cases (h : Alike base d old a b) (ha : Shaped a) (tag : Tag) :
    (closing? a.surface tag a.scopes = none ∧ closing? b.surface tag b.scopes = none) ∨
      ∃ closed kept, closing? a.surface tag a.scopes = some (closed, kept) ∧
        closing? b.surface tag b.scopes =
          some (closed.map (shift base d), kept.map (shift base d)) ∧
        ∀ n ∈ closed, n < a.surface.size ∧ n ≠ .root := by
  have hclosing := closing?_alike h.surface tag ha.leans.lt_size
  rw [← h.scopes] at hclosing
  cases hc : closing? a.surface tag a.scopes with
  | none =>
    rw [hc] at hclosing
    exact .inl ⟨rfl, hclosing⟩
  | some found =>
    obtain ⟨closed, kept⟩ := found
    rw [hc] at hclosing
    refine .inr ⟨closed, kept, rfl, hclosing, fun n hn => ?_⟩
    have hmem : n ∈ a.scopes := by
      rw [closing?_append hc]
      exact List.mem_append_left _ hn
    exact ⟨ha.leans.lt_size n hmem, ha.leans.ne_root n hmem⟩

/-- Both ledgers are empty, or end in like glyphs. -/
theorem ledger_cases (h : Alike base d old a b) (ha : Shaped a) :
    (a.ledger = [] ∧ b.ledger = []) ∨
      ∃ node ledger, a.ledger = node :: ledger ∧
        b.ledger = shift base d node :: ledger.map (shift base d) ∧
        node < a.surface.size ∧ node ≠ .root := by
  have hledger := h.ledger
  cases hl : a.ledger with
  | nil =>
    rw [hl] at hledger
    exact .inl ⟨rfl, hledger⟩
  | cons node ledger =>
    rw [hl] at hledger
    have hmem : node ∈ a.ledger := by
      rw [hl]
      exact List.mem_cons_self
    refine .inr ⟨node, ledger, rfl, hledger, ha.lt_size_of_mem_ledger hmem, ?_⟩
    rintro rfl
    exact (ha.mem_ledger.1 hmem).2 ha.sound.parent?_root

theorem closing (h : Alike base d old a b) (ha : Shaped a) (tag : Tag) :
    Alike base d old (a.made (.closing tag)) (b.made (.closing tag)) := by
  obtain ⟨hc, hc'⟩ | ⟨closed, kept, hc, hc', hnodes⟩ := h.closing_cases ha tag
  · simp only [Run.made, closeScope, hc, hc']
    exact ⟨h.surface, h.scopes, h.ledger, h.size_le⟩
  · obtain ⟨gone, hshed, -⟩ :=
      foldl_removeIfEmpty_sheds (r := { a with scopes := kept }) ha.sound closed
    have hbooks := foldl_removeIfEmpty_books closed { a with scopes := kept }
    have hbooks' := foldl_removeIfEmpty_books (closed.map (shift base d))
      { b with scopes := kept.map (shift base d) }
    simp only [Run.made]
    rw [closeScope_of_eq_some hc, closeScope_of_eq_some hc']
    refine ⟨?_, ?_, ?_, ?_⟩
    · have hsame : a.surface.Sound ∧ Sheet.Alike base d old a.surface b.surface :=
        ⟨ha.sound, h.surface⟩
      exact (foldl_removeIfEmpty_alike id alike_remove (a := { a with scopes := kept })
        (b := { b with scopes := kept.map (shift base d) }) hsame hnodes).2
    · rw [hbooks.scopes, hbooks'.scopes]
    · rw [hbooks.ledger, hbooks'.ledger]
      exact h.ledger
    · rw [hshed.size_eq]
      exact Nat.le_trans h.size_le (Nat.succ_le_succ hbooks'.history)

theorem erase (h : Alike base d old a b) (ha : Shaped a) :
    Alike base d old (a.made .erase) (b.made .erase) := by
  obtain ⟨hl, hl'⟩ | ⟨node, ledger, hl, hl', hn, hroot⟩ := h.ledger_cases ha
  · rw [made_erase_of_nil hl, made_erase_of_nil hl']
    exact h
  · obtain ⟨gone, hshed, -⟩ := ha.made_erase hl
    have hsize := hshed.size_eq
    have hbooks := takeOff_books node { a with ledger }
    have hbooks' := takeOff_books (shift base d node)
      { b with ledger := ledger.map (shift base d) }
    rw [made_erase_of_cons hl] at hsize ⊢
    rw [made_erase_of_cons hl']
    refine ⟨?_, ?_, ?_, ?_⟩
    · have hsame : a.surface.Sound ∧ Sheet.Alike base d old a.surface b.surface :=
        ⟨ha.sound, h.surface⟩
      exact (takeOff_alike id alike_remove (a := { a with ledger })
        (b := { b with ledger := ledger.map (shift base d) }) hsame ha.size_le h.size_le
        hn hroot).2
    · exact hbooks'.scopes.trans (h.scopes.trans (congrArg _ hbooks.scopes.symm))
    · exact hbooks'.ledger.trans (congrArg _ hbooks.ledger.symm)
    · rw [hsize]
      exact Nat.le_trans h.size_le (Nat.succ_le_succ hbooks'.history)

/-- A stroke keeps two runs alike. -/
theorem made (h : Alike base d old a b) (ha : Shaped a) (x : Stroke) :
    Alike base d old (a.made x) (b.made x) := by
  have hnew : b.surface.size = shift base d a.surface.size := h.surface.shift_size.symm
  have hsize (k : Kind) : (a.surface.hang a.current k).size ≤ b.history.length + 2 + 1 := by
    have hle := h.size_le
    rw [Sheet.size_hang]
    omega
  cases x with
  | type value =>
    refine ⟨h.hang ha _, h.scopes, ?_, hsize (.glyph value)⟩
    exact congrArg₂ List.cons hnew h.ledger
  | opening tag =>
    refine ⟨h.hang ha _, ?_, h.ledger, hsize (.container tag)⟩
    exact congrArg₂ List.cons hnew h.scopes
  | closing tag => exact h.closing ha tag
  | erase => exact h.erase ha
  | pause | enter | turn => exact ⟨h.surface, h.scopes, h.ledger, h.size_le⟩
  | hold => exact h

theorem of_waits (h : Alike base d old a b) {a' b' : Run Sheet} (ha : Waits a a')
    (hb : Waits b b') : Alike base d old a' b' where
  surface := by
    rw [ha.surface, hb.surface]
    exact h.surface
  scopes := by
    rw [ha.scopes, hb.scopes]
    exact h.scopes
  ledger := by
    rw [ha.ledger, hb.ledger]
    exact h.ledger
  size_le := by
    obtain ⟨waits, hhistory, -⟩ := hb.history
    have hle := h.size_le
    rw [ha.surface, hhistory, List.length_append]
    omega

/-- Two runs that are alike and do the same strokes, each in its pace, are alike then. -/
theorem strikeAll {pace pace' : Pace} {xs : List Stroke} {a' b' : Run Sheet}
    (h : Alike base d old a b) (ha : Shaped a) (hgo : a.strikeAll pace xs = .goes a')
    (hgo' : b.strikeAll pace' xs = .goes b') : Alike base d old a' b' := by
  induction xs generalizing a b with
  | nil =>
    cases hgo
    cases hgo'
    exact h
  | cons x xs ih =>
    obtain ⟨p, hp, hgo⟩ := Step.andThen_eq_goes hgo
    obtain ⟨q, hq, hgo'⟩ := Step.andThen_eq_goes hgo'
    have hw := waits_of_strike hp
    exact ih ((h.made ha x).of_waits hw (waits_of_strike hq)) ((ha.made x).of_waits hw) hgo hgo'

end Alike

/-- Two runs that begin on blank sheets are alike. -/
theorem alike_begin (pace pace' : Pace) (cancel cancel' : Cancel) :
    Alike 1 0 [] (.begin pace cancel Sheet.blank) (.begin pace' cancel' Sheet.blank) :=
  ⟨.refl Sheet.sound_blank, rfl, rfl, Nat.le_refl _⟩

end Run

end Typist
