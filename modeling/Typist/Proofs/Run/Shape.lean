import Mathlib.Data.List.TakeWhile
import Typist.Proofs.Run.Script
import Typist.Proofs.Sheet.Shedding

/-!
# How a run stands on its sheet

A run on a sheet keeps two lists of nodes, its open scopes and its ledger, and both can come apart
from the sheet: an erasure may take off a scope that is still open. What does not come apart, at any
moment of any run that begins on a blank sheet, is said here.

* `prune_sheds`, `takeOff_sheds`, `foldl_removeIfEmpty_sheds` — erasing and closing take off empty
  nodes, and nothing else;
* `Shaped` — the open scopes were hung from one another and accept new nodes, and the ledger holds
  the glyphs that hang somewhere, the newest first;
* `Follows` — the scopes and the ledger are those of a draft, scope by scope and glyph by glyph;
* `Shaped.made`, `Follows.made` — a stroke keeps the first and does to the second what it does to
  the draft.
-/

namespace Typist

/-! ## Closing a tag -/

/-- A close of what is not open changes nothing. -/
theorem closeTag_of_not_mem {tag : Tag} {tags : List Tag} (h : tag ∉ tags) :
    closeTag tag tags = tags := by
  have hne : ∀ t ∈ tags, decide (t ≠ tag) = true := by
    rintro t ht
    exact decide_eq_true fun heq => h (heq ▸ ht)
  rw [closeTag, List.dropWhile_eq_nil_iff.2 hne]

/-- A close closes the innermost scope of its tag, and what was opened in it. -/
theorem closeTag_append {tag : Tag} {above below : List Tag} (h : tag ∉ above) :
    closeTag tag (above ++ tag :: below) = below := by
  have hdrop : (above ++ tag :: below).dropWhile (· ≠ tag) = tag :: below := by
    rw [List.dropWhile_append_of_pos]
    · exact List.dropWhile_cons_of_neg (by simp)
    · rintro t ht
      exact decide_eq_true fun heq => h (heq ▸ ht)
  rw [closeTag, hdrop]

namespace Run

/-- What is closed and what stays open is what was open. -/
theorem closing?_append {σ : Type} [Surface σ] {s : σ} {tag : Tag} {scopes closed kept : List Node}
    (h : closing? s tag scopes = some (closed, kept)) : scopes = closed ++ kept := by
  induction scopes generalizing closed with
  | nil => cases h
  | cons n scopes ih =>
    unfold closing? at h
    split at h
    · cases h
      rfl
    · obtain ⟨⟨more, rest⟩, hmore, hpair⟩ := Option.map_eq_some_iff.1 h
      cases hpair
      rw [ih hmore, List.cons_append]

/-- A close without a match: its tag is not open. -/
theorem closing?_eq_none {σ : Type} [Surface σ] {s : σ} {tag : Tag} {scopes : List Node}
    {tags : List Tag} (h : scopes.map (Surface.tag? s) = tags.map some)
    (hc : closing? s tag scopes = none) : tag ∉ tags := by
  induction scopes generalizing tags with
  | nil =>
    cases List.map_eq_nil_iff.1 h.symm
    exact List.not_mem_nil
  | cons n scopes ih =>
    cases tags with
    | nil => exact List.not_mem_nil
    | cons t tags =>
      obtain ⟨ht, htags⟩ := List.cons.inj h
      unfold closing? at hc
      split at hc
      · cases hc
      · rename_i hne
        have hrest := ih htags (Option.map_eq_none_iff.1 hc)
        rintro (_ | ⟨_, hmem⟩)
        · exact hne ht
        · exact hrest hmem

/-- A close with a match: it closes the scopes above the innermost one of its tag, and that one. -/
theorem closing?_eq_some {σ : Type} [Surface σ] {s : σ} {tag : Tag}
    {scopes closed kept : List Node} {tags : List Tag}
    (h : scopes.map (Surface.tag? s) = tags.map some)
    (hc : closing? s tag scopes = some (closed, kept)) :
    ∃ above below, tags = above ++ tag :: below ∧ tag ∉ above ∧
      closed.length = above.length + 1 ∧ kept.map (Surface.tag? s) = below.map some := by
  induction scopes generalizing tags closed with
  | nil => cases hc
  | cons n scopes ih =>
    cases tags with
    | nil => cases h
    | cons t tags =>
      obtain ⟨ht, htags⟩ := List.cons.inj h
      unfold closing? at hc
      split at hc
      · rename_i heq
        cases Option.some.inj (ht.symm.trans heq)
        cases hc
        exact ⟨[], tags, rfl, List.not_mem_nil, rfl, htags⟩
      · rename_i hne
        obtain ⟨⟨more, rest⟩, hmore, hpair⟩ := Option.map_eq_some_iff.1 hc
        cases hpair
        obtain ⟨above, below, rfl, habove, hlen, hkept⟩ := ih htags hmore
        refine ⟨t :: above, below, rfl, ?_, by simp [hlen], hkept⟩
        rintro (_ | ⟨_, hmem⟩)
        · exact hne ht
        · exact habove hmem

/-! ## What erasing and closing do

Both go through nodes and take off those that are empty. Which nodes an erasure gets to depends on
how the sheet is linked, so what is known of the way up is left open here: `Climbs` says what has to
hold of it, and it is used with two such properties. -/

theorem closeScope_of_eq_some {σ : Type} [Surface σ] {r : Run σ} {tag : Tag}
    {closed kept : List Node} (hc : closing? r.surface tag r.scopes = some (closed, kept)) :
    r.closeScope tag = closed.foldl removeIfEmpty { r with scopes := kept } := by
  simp only [closeScope, hc]

theorem made_erase_of_cons {σ : Type} [Surface σ] {r : Run σ} {node : Node} {ledger : List Node}
    (hl : r.ledger = node :: ledger) :
    r.made .erase =
      (takeOff node { r with ledger }).count fun s => { s with erased := s.erased + 1 } := by
  simp only [made, hl]

theorem made_erase_of_nil {σ : Type} [Surface σ] {r : Run σ} (hl : r.ledger = []) :
    r.made .erase = r := by
  simp only [made, hl]

theorem lastFirst_eq_nil_of_not_pos {s : Sheet} {n : Node} (h : ¬0 < s.childCount n) :
    (s.slot n).lastFirst = [] := by
  simpa [Sheet.childCount_pos_iff] using h

/-- A node that something hangs from is not a glyph. -/
theorem kind_ne_of_parent? {s : Sheet} (hs : s.Sound) {n p : Node} (h : s.parent? n = some p)
    (value : Char) : s.kind p ≠ .glyph value := by
  intro hk
  have hmem := hs.mem_iff.2 h
  rw [hs.leaf hk] at hmem
  cases hmem

/-- What holds where a way up gets to an empty node still holds at the next node when this one has
been taken off; and of the nodes that are taken off the second property holds. -/
def Climbs (I : Sheet → Node → Prop) (Q : Node → Prop) : Prop :=
  ∀ s node p, I s node → node ≠ .root → (s.slot node).lastFirst = [] → s.parent? node = some p →
    Q node ∧ I (s.remove p node) p

/-- The way up from a node takes off nodes that are empty. -/
theorem prune_sheds {I : Sheet → Node → Prop} {Q : Node → Prop} (hI : Climbs I Q) (steps : Nat)
    {node : Node} {r : Run Sheet} (h : I r.surface node) :
    ∃ gone, r.surface.Sheds gone (prune steps node r).surface ∧ ∀ n ∈ gone, Q n := by
  induction steps generalizing node r with
  | zero => exact ⟨[], .refl _, by simp⟩
  | succ steps ih =>
    unfold prune
    -- the way ends at the root and at what is not empty
    split
    · exact ⟨[], .refl _, by simp⟩
    · rename_i hfull
      simp only [Bool.or_eq_true, decide_eq_true_eq, not_or] at hfull
      have hempty := lastFirst_eq_nil_of_not_pos hfull.2
      split
      · rename_i parent hp
        obtain ⟨hnode, hparent⟩ := hI _ _ _ h hfull.1 hempty hp
        obtain ⟨gone, hshed, hgone⟩ := ih (r := r.remove parent node) hparent
        refine ⟨node :: gone, .step hp hempty hshed, ?_⟩
        rintro n (_ | ⟨_, hn⟩)
        · exact hnode
        · exact hgone n hn
      · exact ⟨[], .refl _, by simp⟩

/-- Erasing a glyph takes off the glyph and nodes that are empty then. -/
theorem takeOff_sheds {I : Sheet → Node → Prop} {Q : Node → Prop} (hI : Climbs I Q)
    {r : Run Sheet} {node p : Node} (hempty : (r.surface.slot node).lastFirst = [])
    (hp : r.surface.parent? node = some p) (h : I (r.surface.remove p node) p) :
    ∃ gone, r.surface.Sheds (node :: gone) (r.takeOff node).surface ∧ ∀ n ∈ gone, Q n := by
  have hoff : r.takeOff node = prune (r.history.length + 1) p (r.remove p node) := by
    have hp' : Surface.parent? r.surface node = some p := hp
    rw [takeOff, hp']
  obtain ⟨gone, hshed, hgone⟩ := prune_sheds hI (r := r.remove p node) (r.history.length + 1) h
  refine ⟨gone, ?_, hgone⟩
  rw [hoff]
  exact .step hp hempty hshed

/-- On the way up there are no glyphs. -/
theorem climbs_kind (s : Sheet) :
    Climbs
      (fun t node => t.Sound ∧ (∀ n, t.kind n = s.kind n) ∧ ∀ value, s.kind node ≠ .glyph value)
      fun node => ∀ value, s.kind node ≠ .glyph value := by
  rintro t node p ⟨ht, hkind, hnode⟩ - - hp
  refine ⟨hnode, ht.remove hp, fun n => (ht.kind_remove hp n).trans (hkind n), ?_⟩
  rw [← hkind]
  exact kind_ne_of_parent? ht hp

/-- Closing scopes takes off such of them as are empty. -/
theorem foldl_removeIfEmpty_sheds {r : Run Sheet} (hs : r.surface.Sound) (nodes : List Node) :
    ∃ gone, r.surface.Sheds gone (nodes.foldl removeIfEmpty r).surface ∧
      ∀ n ∈ gone, n ∈ nodes := by
  induction nodes generalizing r with
  | nil => exact ⟨[], .refl _, by simp⟩
  | cons node nodes ih =>
    rw [List.foldl_cons]
    unfold removeIfEmpty
    split
    · obtain ⟨gone, hshed, hgone⟩ := ih hs
      exact ⟨gone, hshed, fun n hn => List.mem_cons_of_mem _ (hgone n hn)⟩
    · rename_i hempty
      split
      · rename_i parent hp
        obtain ⟨gone, hshed, hgone⟩ := ih (r := r.remove parent node) (hs.remove hp)
        refine ⟨node :: gone, .step hp (lastFirst_eq_nil_of_not_pos hempty) hshed, ?_⟩
        rintro n (_ | ⟨_, hn⟩)
        · exact List.mem_cons_self
        · exact List.mem_cons_of_mem _ (hgone n hn)
      · obtain ⟨gone, hshed, hgone⟩ := ih hs
        exact ⟨gone, hshed, fun n hn => List.mem_cons_of_mem _ (hgone n hn)⟩

/-- What a close does: it closes scopes from the inside out and takes off such of them as are
empty, or nothing if its tag is not open. -/
theorem made_closing (r : Run Sheet) (tag : Tag) (hs : r.surface.Sound) :
    let r' := r.made (.closing tag)
    ∃ closed gone, r.scopes = closed ++ r'.scopes ∧ r.surface.Sheds gone r'.surface ∧
      (∀ n ∈ gone, n ∈ closed) ∧ r'.ledger = r.ledger ∧ r'.summary.typed = r.summary.typed ∧
      r'.summary.erased = r.summary.erased ∧ r.history.length ≤ r'.history.length ∧
      ∀ tags : List Tag, r.scopes.map r.surface.tag? = tags.map some →
        r'.scopes.map r.surface.tag? = (closeTag tag tags).map some := by
  intro r'
  cases hc : closing? r.surface tag r.scopes with
  | none =>
    have hr' : r' = (r.remark (.ignoredClose tag)).count
        fun s => { s with ignoredCloses := s.ignoredCloses + 1 } := by
      simp only [r', made, closeScope, hc]
    rw [hr']
    refine ⟨[], [], rfl, .refl _, by simp, rfl, rfl, rfl, Nat.le_refl _, fun tags htags => ?_⟩
    rw [closeTag_of_not_mem (closing?_eq_none htags hc)]
    exact htags
  | some found =>
    obtain ⟨closed, kept⟩ := found
    have hr' : r' = closed.foldl removeIfEmpty { r with scopes := kept } :=
      closeScope_of_eq_some hc
    obtain ⟨gone, hshed, hgone⟩ :=
      foldl_removeIfEmpty_sheds (r := { r with scopes := kept }) hs closed
    obtain ⟨hscopes, hledger, hsummary, -, hhistory⟩ :=
      foldl_removeIfEmpty_books closed { r with scopes := kept }
    rw [← hr'] at hscopes hledger hsummary hhistory
    rw [hscopes, hledger, hsummary]
    refine ⟨closed, gone, closing?_append hc, hr' ▸ hshed, hgone, rfl, rfl, rfl, hhistory,
      fun tags htags => ?_⟩
    obtain ⟨above, below, rfl, habove, -, hkept⟩ := closing?_eq_some htags hc
    rw [closeTag_append habove]
    exact hkept

/-- What an erasure does: it takes off the newest glyph of the ledger and, on the way up from it,
nodes that are empty then. -/
theorem made_erase_of {I : Sheet → Node → Prop} {Q : Node → Prop} (hI : Climbs I Q) {r : Run Sheet}
    {node p : Node} {ledger : List Node} (hl : r.ledger = node :: ledger)
    (hempty : (r.surface.slot node).lastFirst = []) (hp : r.surface.parent? node = some p)
    (h : I (r.surface.remove p node) p) :
    let r' := r.made .erase
    ∃ gone, r.surface.Sheds (node :: gone) r'.surface ∧ (∀ n ∈ gone, Q n) ∧
      r'.scopes = r.scopes ∧ r'.ledger = ledger ∧ r'.summary.typed = r.summary.typed ∧
      r'.summary.erased = r.summary.erased + 1 ∧ r.history.length ≤ r'.history.length := by
  intro r'
  have hr' : r' = (takeOff node { r with ledger }).count
      fun s => { s with erased := s.erased + 1 } := made_erase_of_cons hl
  obtain ⟨gone, hshed, hgone⟩ := takeOff_sheds hI (r := { r with ledger }) hempty hp h
  obtain ⟨hscopes, hledger, hsummary, -, hhistory⟩ := takeOff_books node { r with ledger }
  have htyped := congrArg Summary.typed hsummary
  have herased := congrArg (fun s : Summary => s.erased + 1) hsummary
  rw [hr']
  exact ⟨gone, hshed, hgone, hscopes, hledger, htyped, herased, hhistory⟩

/-! ## Shape

The ledger and the sheet do not come apart, because only an erasure takes glyphs off, and it takes
off the one that it strikes from the ledger. The scopes and the sheet do: an erasure leaves a scope
open that it has taken off, and what is hung from that scope later hangs nowhere either. Of a scope
that is open the invariant therefore says only where it was hung, and that it may still grow. -/

/-- A run stands on its sheet as runs do that begin on a blank one. -/
structure Shaped (r : Run Sheet) : Prop where
  sound : r.surface.Sound
  leans : r.surface.Leans r.scopes
  accepts : ∀ n ∈ r.scopes, r.surface.Accepts n
  /-- the open scopes were opened one after the other -/
  scopes_sorted : r.scopes.Pairwise (· > ·)
  ledger_sorted : r.ledger.Pairwise (· > ·)
  mem_ledger : ∀ {u}, u ∈ r.ledger ↔
    (∃ value, r.surface.kind u = .glyph value) ∧ r.surface.parent? u ≠ none
  net : r.ledger.length + r.summary.erased = r.summary.typed
  /-- each node but the root was made by an act of its own -/
  size_le : r.surface.size ≤ r.history.length + 1

variable {r : Run Sheet}

namespace Shaped

/-- Nodes may be hung from the current node. -/
theorem accepts_current (h : Shaped r) : r.surface.Accepts r.current := by
  unfold current
  cases hs : r.scopes with
  | nil => exact h.sound.accepts_root
  | cons n scopes => exact h.accepts n (by rw [hs]; exact List.mem_cons_self)

/-- The node that new nodes are hung from is the newest scope. -/
theorem le_current (h : Shaped r) : ∀ n ∈ r.scopes, n ≤ r.current := by
  intro n hn
  have hsorted := h.scopes_sorted
  unfold current
  cases hs : r.scopes with
  | nil =>
    rw [hs] at hn
    cases hn
  | cons m scopes =>
    rw [hs] at hn hsorted
    rcases List.mem_cons.1 hn with rfl | hn
    · exact Nat.le_refl _
    · exact Nat.le_of_lt ((List.pairwise_cons.1 hsorted).1 n hn)

/-- An open scope is a container. -/
theorem kind_ne_of_mem (h : Shaped r) {n : Node} (hn : n ∈ r.scopes) (value : Char) :
    r.surface.kind n ≠ .glyph value :=
  (h.accepts n hn).kind_ne value

/-- A glyph of the ledger is no open scope. -/
theorem not_mem_scopes (h : Shaped r) {u : Node} (hu : u ∈ r.ledger) : u ∉ r.scopes := by
  intro hn
  obtain ⟨value, hk⟩ := (h.mem_ledger.1 hu).1
  exact h.kind_ne_of_mem hn value hk

/-- A new node below the current one leaves the scopes as they are. -/
theorem accepts_hang (h : Shaped r) (k : Kind) :
    ∀ n ∈ r.scopes, (r.surface.hang r.current k).Accepts n := fun n hn =>
  (h.accepts n hn).hang h.accepts_current.lt_size (h.le_current n hn)

/-- A new node below the current one leaves the glyphs that hang somewhere as they are. -/
theorem mem_ledger_hang (h : Shaped r) (k : Kind) {u : Node} (hu : u ≠ r.surface.size) :
    u ∈ r.ledger ↔ (∃ value, (r.surface.hang r.current k).kind u = .glyph value) ∧
      (r.surface.hang r.current k).parent? u ≠ none := by
  rw [Sheet.kind_hang h.accepts_current.lt_size, Sheet.parent?_hang h.accepts_current.lt_size,
    if_neg hu, if_neg hu]
  exact h.mem_ledger

theorem size_le_hang (h : Shaped r) (k : Kind) :
    (r.surface.hang r.current k).size ≤ r.history.length + 2 + 1 := by
  have hsize := h.size_le
  rw [Sheet.size_hang]
  omega

/-- Only nodes of the sheet are in the ledger. -/
theorem lt_size_of_mem_ledger (h : Shaped r) {u : Node} (hu : u ∈ r.ledger) :
    u < r.surface.size := by
  obtain ⟨p, hp⟩ := Option.ne_none_iff_exists'.1 (h.mem_ledger.1 hu).2
  exact Sheet.lt_size_of_parent? hp

/-- A typed character keeps the shape. -/
theorem type (h : Shaped r) (value : Char) : Shaped (r.made (.type value)) where
  sound := h.sound.hang h.accepts_current (by simp)
  leans := h.leans.hang h.accepts_current.lt_size
  accepts := h.accepts_hang _
  scopes_sorted := h.scopes_sorted
  ledger_sorted := List.pairwise_cons.2 ⟨fun _ hu => h.lt_size_of_mem_ledger hu, h.ledger_sorted⟩
  mem_ledger := by
    intro u
    change u ∈ r.surface.size :: r.ledger ↔
      (∃ v, (r.surface.hang r.current (.glyph value)).kind u = .glyph v) ∧
        (r.surface.hang r.current (.glyph value)).parent? u ≠ none
    rw [List.mem_cons]
    -- the new node is a glyph that hangs somewhere, and the others are as they were
    by_cases hu : u = r.surface.size
    · rw [Sheet.kind_hang h.accepts_current.lt_size, Sheet.parent?_hang h.accepts_current.lt_size]
      simp [hu]
    · rw [← h.mem_ledger_hang _ hu]
      simp [hu]
  net := by
    have hnet := h.net
    change r.ledger.length + 1 + r.summary.erased = r.summary.typed + 1
    omega
  size_le := h.size_le_hang _

/-- An opened scope keeps the shape: it was made last, and nothing hangs from it yet. -/
theorem opening (h : Shaped r) (tag : Tag) : Shaped (r.made (.opening tag)) where
  sound := h.sound.hang h.accepts_current (by simp)
  leans := by
    have hp := h.accepts_current.lt_size
    refine ⟨⟨?_, Nat.ne_of_gt h.sound.pos, ?_⟩, h.leans.hang hp⟩
    · exact (Sheet.size_hang _ _ _).symm ▸ Nat.lt_succ_self _
    · intro p hp'
      change (r.surface.hang r.current (.container tag)).parent? r.surface.size = some p at hp'
      rw [Sheet.parent?_hang hp, if_pos rfl] at hp'
      cases hp'
      rfl
  accepts := by
    rintro n (_ | ⟨_, hn⟩)
    · exact Sheet.Accepts.hang_self h.accepts_current.lt_size (by simp)
    · exact h.accepts_hang _ n hn
  scopes_sorted :=
    List.pairwise_cons.2 ⟨fun n hn => (h.accepts n hn).lt_size, h.scopes_sorted⟩
  ledger_sorted := h.ledger_sorted
  mem_ledger := by
    intro u
    -- the new node is no glyph, and handles are not used twice
    by_cases hu : u = r.surface.size
    · refine iff_of_false (fun hmem => ?_) ?_
      · exact Nat.ne_of_lt (h.lt_size_of_mem_ledger hmem) hu
      · rintro ⟨⟨value, hk⟩, -⟩
        change (r.surface.hang r.current (.container tag)).kind u = .glyph value at hk
        rw [Sheet.kind_hang h.accepts_current.lt_size, if_pos hu] at hk
        cases hk
    · exact h.mem_ledger_hang _ hu
  net := h.net
  size_le := h.size_le_hang _

/-- Taking off empty nodes and erasing glyphs that were taken off keeps the shape. -/
theorem shed (h : Shaped r) {r' : Run Sheet} {gone : List Node}
    (hshed : r.surface.Sheds gone r'.surface) (hscopes : r'.scopes <:+ r.scopes)
    (hledger : r'.ledger = r.ledger.filter (· ∉ gone))
    (hnet : r'.ledger.length + r'.summary.erased = r'.summary.typed)
    (hhistory : r.history.length ≤ r'.history.length) : Shaped r' where
  sound := hshed.sound h.sound
  leans := by
    obtain ⟨closed, hclosed⟩ := hscopes
    have hleans := h.leans
    rw [← hclosed] at hleans
    exact hleans.of_append.shed hshed h.sound
  accepts := fun n hn => hshed.accepts h.sound (h.accepts n (hscopes.subset hn))
  scopes_sorted := h.scopes_sorted.sublist hscopes.sublist
  ledger_sorted := by
    rw [hledger]
    exact h.ledger_sorted.filter _
  mem_ledger := by
    intro u
    rw [hledger, List.mem_filter, h.mem_ledger, hshed.kind_eq h.sound, hshed.parent?_eq h.sound]
    by_cases hu : u ∈ gone <;> simp [hu]
  net := hnet
  size_le := by
    rw [hshed.size_eq]
    exact Nat.le_trans h.size_le (Nat.succ_le_succ hhistory)

/-- A close keeps the shape: what it takes off are scopes that are not open any more. -/
theorem closing (h : Shaped r) (tag : Tag) : Shaped (r.made (.closing tag)) := by
  obtain ⟨closed, gone, hscopes, hshed, hgone, hledger, htyped, herased, hhistory, -⟩ :=
    r.made_closing tag h.sound
  refine h.shed hshed ⟨closed, hscopes.symm⟩ ?_ ?_ hhistory
  · -- what was closed are scopes, and no glyphs
    rw [hledger, List.filter_eq_self.2]
    intro u hu
    refine decide_eq_true fun hmem => h.not_mem_scopes hu ?_
    rw [hscopes]
    exact List.mem_append_left _ (hgone u hmem)
  · rw [hledger, htyped, herased]
    exact h.net

/-- What an erasure does: it takes off the newest glyph of the ledger and, on the way up from it,
nodes that are empty then. None of these is in the ledger. -/
theorem made_erase (h : Shaped r) {node : Node} {ledger : List Node}
    (hl : r.ledger = node :: ledger) :
    let r' := r.made .erase
    ∃ gone, r.surface.Sheds (node :: gone) r'.surface ∧ (∀ u ∈ ledger, u ∉ node :: gone) ∧
      r'.scopes = r.scopes ∧ r'.ledger = ledger ∧ r'.summary.typed = r.summary.typed ∧
      r'.summary.erased = r.summary.erased + 1 ∧ r.history.length ≤ r'.history.length := by
  intro r'
  have hmem {u : Node} (hu : u ∈ node :: ledger) : u ∈ r.ledger := hl ▸ hu
  obtain ⟨⟨value, hk⟩, hp⟩ := h.mem_ledger.1 (hmem List.mem_cons_self)
  obtain ⟨p, hp⟩ := Option.ne_none_iff_exists'.1 hp
  obtain ⟨gone, hshed, hgone, hbooks⟩ :=
    made_erase_of (climbs_kind r.surface) hl (h.sound.leaf hk) hp
      ⟨h.sound.remove hp, h.sound.kind_remove hp, kind_ne_of_parent? h.sound hp⟩
  refine ⟨gone, hshed, fun u hu => ?_, hbooks⟩
  have hsorted := h.ledger_sorted
  rw [hl] at hsorted
  rintro (_ | ⟨_, hug⟩)
  · exact Nat.lt_irrefl _ ((List.pairwise_cons.1 hsorted).1 _ hu)
  · obtain ⟨v, hv⟩ := (h.mem_ledger.1 (hmem (List.mem_cons_of_mem _ hu))).1
    exact hgone u hug v hv

/-- An erasure keeps the shape: the glyph that it takes off the sheet is the one that leaves the ledger.
-/
theorem erase (h : Shaped r) : Shaped (r.made .erase) := by
  cases hl : r.ledger with
  | nil =>
    rw [made_erase_of_nil hl]
    exact h
  | cons node ledger =>
    obtain ⟨gone, hshed, hgone, hscopes, hledger, htyped, herased, hhistory⟩ := h.made_erase hl
    have hsuffix : (r.made .erase).scopes <:+ r.scopes := by simp [hscopes]
    refine h.shed hshed hsuffix ?_ ?_ hhistory
    · have hhead : (node :: ledger).filter (· ∉ node :: gone) = ledger.filter (· ∉ node :: gone) :=
        List.filter_cons_of_neg (by simp)
      rw [hledger, hl, hhead, List.filter_eq_self.2]
      exact fun u hu => decide_eq_true (hgone u hu)
    · have hnet := h.net
      rw [hl, List.length_cons] at hnet
      rw [hledger, htyped, herased]
      omega

/-- Every stroke keeps the shape. -/
theorem made (h : Shaped r) (x : Stroke) : Shaped (r.made x) := by
  cases x with
  | type value => exact h.type value
  | opening tag => exact h.opening tag
  | closing tag => exact h.closing tag
  | erase => exact h.erase
  | pause | enter | turn =>
    exact ⟨h.sound, h.leans, h.accepts, h.scopes_sorted, h.ledger_sorted, h.mem_ledger, h.net,
      h.size_le⟩
  | hold => exact h

end Shaped

end Run

/-! ## Following a draft -/

namespace Sheet

variable {s : Sheet}

/-- A node is a glyph of this value, and was hung up with these tags around it. -/
def Bears (s : Sheet) (u : Node) (unit : Char × List Tag) : Prop :=
  s.kind u = .glyph unit.1 ∧
    ∃ around, s.Leans (u :: around) ∧ around.map s.tag? = unit.2.map some

theorem map_tag?_hang {ns : List Node} {p : Node} {k : Kind} (hp : p < s.size)
    (hns : ∀ n ∈ ns, n < s.size) : ns.map (s.hang p k).tag? = ns.map s.tag? := by
  refine List.map_congr_left fun n hn => ?_
  rw [tag?, tag?, kind_hang_of_lt hp (hns n hn)]

/-- A character keeps its tags when another node is hung up. -/
theorem Bears.hang {u : Node} {unit : Char × List Tag} (h : s.Bears u unit) {p : Node} {k : Kind}
    (hp : p < s.size) : (s.hang p k).Bears u unit := by
  obtain ⟨hk, around, hleans, htags⟩ := h
  refine ⟨?_, around, hleans.hang hp, ?_⟩
  · rw [kind_hang_of_lt hp hleans.1.1, hk]
  · rw [map_tag?_hang hp hleans.2.lt_size, htags]

/-- A character keeps its tags when other nodes are taken off. -/
theorem Bears.shed {s' : Sheet} {gone : List Node} {u : Node} {unit : Char × List Tag}
    (h : s.Bears u unit) (hshed : Sheds s gone s') (hs : Sound s) : s'.Bears u unit := by
  obtain ⟨hk, around, hleans, htags⟩ := h
  refine ⟨by rw [hshed.kind_eq hs, hk], around, hleans.shed hshed hs, ?_⟩
  rw [← htags]
  exact List.map_congr_left fun n _ => hshed.tag?_eq hs n

/-- A glyph that hangs from the root is visible in the style in which it was hung up. -/
theorem Bears.mem_glyphs (hs : Sound s) {u : Node} {value : Char} {tags : List Tag}
    (h : s.Bears u (value, tags)) (hroot : s.attached? u = some true) :
    (u, value, tags) ∈ s.glyphs := by
  obtain ⟨hk, around, hleans, htags⟩ := h
  rcases (attached?_eq_some_true_iff hs hleans.1.1).1 hroot with hu | ⟨within, hu⟩
  · exact absurd hu hleans.1.2.1
  · cases hu.eq_of_leans hs hleans
    exact (mem_glyphs_iff hs).2 ⟨hk, around, hu, htags⟩

end Sheet

namespace Run

/-- The open scopes and the ledger of a run are those of a draft. -/
structure Follows (d : Draft) (r : Run Sheet) : Prop where
  tags : r.scopes.map r.surface.tag? = d.tags.map some
  units : List.Forall₂ r.surface.Bears r.ledger d.units

namespace Follows

variable {d : Draft} {r : Run Sheet}

/-- A typed character follows the draft. -/
theorem type (h : Follows d r) (hr : Shaped r) (value : Char) :
    Follows (d.strike (.type value)) (r.made (.type value)) := by
  have hp := hr.accepts_current.lt_size
  have hscopes : r.scopes.map (r.surface.hang r.current (.glyph value)).tag? = d.tags.map some := by
    rw [Sheet.map_tag?_hang hp hr.leans.lt_size, h.tags]
  refine ⟨hscopes, .cons ⟨?_, r.scopes, ⟨⟨?_, Nat.ne_of_gt hr.sound.pos, ?_⟩, ?_⟩, hscopes⟩ ?_⟩
  · exact (Sheet.kind_hang hp _).trans (if_pos rfl)
  · exact (Sheet.size_hang _ _ _).symm ▸ Nat.lt_succ_self _
  · intro p hp'
    have hnew : (r.surface.hang r.current (.glyph value)).parent? r.surface.size =
        some r.current := by
      rw [Sheet.parent?_hang hp, if_pos rfl]
    exact Option.some.inj (hp'.symm.trans hnew)
  · exact hr.leans.hang hp
  · exact h.units.imp fun _ _ hbears => hbears.hang hp

/-- An opened scope follows the draft. -/
theorem opening (h : Follows d r) (hr : Shaped r) (tag : Tag) :
    Follows (d.strike (.opening tag)) (r.made (.opening tag)) := by
  have hp := hr.accepts_current.lt_size
  have hnew : (r.surface.hang r.current (.container tag)).tag? r.surface.size = some tag := by
    rw [Sheet.tag?_eq_some_iff, Sheet.kind_hang hp, if_pos rfl]
  have hscopes : r.scopes.map (r.surface.hang r.current (.container tag)).tag? =
      d.tags.map some := by
    rw [Sheet.map_tag?_hang hp hr.leans.lt_size, h.tags]
  refine ⟨?_, h.units.imp fun _ _ hbears => hbears.hang hp⟩
  exact congrArg₂ List.cons hnew hscopes

/-- A close follows the draft. -/
theorem closing (h : Follows d r) (hr : Shaped r) (tag : Tag) :
    Follows (d.strike (.closing tag)) (r.made (.closing tag)) := by
  obtain ⟨closed, gone, -, hshed, -, hledger, -, -, -, htags⟩ := r.made_closing tag hr.sound
  refine ⟨?_, ?_⟩
  · refine Eq.trans ?_ (htags d.tags h.tags)
    exact List.map_congr_left fun n _ => hshed.tag?_eq hr.sound n
  · rw [hledger]
    exact h.units.imp fun _ _ hbears => hbears.shed hshed hr.sound

/-- An erasure follows the draft. -/
theorem erase (h : Follows d r) (hr : Shaped r) : Follows (d.strike .erase) (r.made .erase) := by
  have hunits := h.units
  cases hl : r.ledger with
  | nil =>
    rw [hl] at hunits
    cases hu : d.units with
    | nil =>
      rw [made_erase_of_nil hl]
      exact ⟨h.tags, by rw [hl, Draft.strike, hu]; exact .nil⟩
    | cons unit units =>
      rw [hu] at hunits
      cases hunits
  | cons node ledger =>
    obtain ⟨gone, hshed, -, hscopes, hledger, -⟩ := hr.made_erase hl
    refine ⟨?_, ?_⟩
    · rw [hscopes]
      refine Eq.trans ?_ h.tags
      exact List.map_congr_left fun n _ => hshed.tag?_eq hr.sound n
    · rw [hl] at hunits
      cases hu : d.units with
      | nil =>
        rw [hu] at hunits
        cases hunits
      | cons unit units =>
        rw [hu] at hunits
        rw [hledger, Draft.strike, hu]
        exact (List.forall₂_cons.1 hunits).2.imp fun _ _ hbears => hbears.shed hshed hr.sound

/-- A stroke does to the scopes and the ledger what it does to the draft. -/
theorem made (h : Follows d r) (hr : Shaped r) (x : Stroke) :
    Follows (d.strike x) (r.made x) := by
  cases x with
  | type value => exact h.type hr value
  | opening tag => exact h.opening hr tag
  | closing tag => exact h.closing hr tag
  | erase => exact h.erase hr
  | pause | enter | turn => exact ⟨h.tags, h.units⟩
  | hold => exact h

end Follows

/-! ## Whole runs -/

theorem Waits.typed {σ : Type} {r r' : Run σ} (hw : Waits r r') :
    r'.summary.typed = r.summary.typed :=
  (congrArg Summary.typed hw.summary :)

theorem Waits.erased {σ : Type} {r r' : Run σ} (hw : Waits r r') :
    r'.summary.erased = r.summary.erased :=
  (congrArg Summary.erased hw.summary :)

/-- Waiting keeps the shape. -/
theorem Shaped.of_waits {r r' : Run Sheet} (h : Shaped r) (hw : Waits r r') : Shaped r' where
  sound := by
    rw [hw.surface]
    exact h.sound
  leans := by
    rw [hw.surface, hw.scopes]
    exact h.leans
  accepts := by
    rw [hw.surface, hw.scopes]
    exact h.accepts
  scopes_sorted := by
    rw [hw.scopes]
    exact h.scopes_sorted
  ledger_sorted := by
    rw [hw.ledger]
    exact h.ledger_sorted
  mem_ledger := by
    rw [hw.surface, hw.ledger]
    exact h.mem_ledger
  net := by
    rw [hw.ledger, hw.typed, hw.erased]
    exact h.net
  size_le := by
    obtain ⟨waits, hhistory, -⟩ := hw.history
    have hsize := h.size_le
    rw [hw.surface, hhistory, List.length_append]
    omega

theorem Follows.of_waits {d : Draft} {r r' : Run Sheet} (h : Follows d r) (hw : Waits r r') :
    Follows d r' where
  tags := by
    rw [hw.surface, hw.scopes]
    exact h.tags
  units := by
    rw [hw.surface, hw.ledger]
    exact h.units

/-- Strokes keep the shape, and do to the scopes and the ledger what they do to a draft. -/
theorem shaped_strikeAll {pace : Pace} {xs : List Stroke} {r r' : Run Sheet} {d : Draft}
    (hr : Shaped r) (hd : Follows d r) (hgo : r.strikeAll pace xs = .goes r') :
    Shaped r' ∧ Follows (d.after xs) r' := by
  let I : List Stroke → Draft → Run Sheet → Prop := fun _ d r => Shaped r ∧ Follows d r
  have hmade (x xs d r) (h : I (x :: xs) d r) : I xs (d.strike x) (r.made x) :=
    ⟨h.1.made x, h.2.made h.1 x⟩
  have hwaits (xs d r r') (hw : Waits r r') (h : I xs d r) : I xs d r' :=
    ⟨h.1.of_waits hw, h.2.of_waits hw⟩
  exact strikeAll_keeps hmade hwaits ⟨hr, hd⟩ hgo

/-- A run that begins on a blank sheet has this shape. -/
theorem shaped_begin (pace : Pace) (cancel : Cancel) :
    Shaped (.begin pace cancel Sheet.blank) where
  sound := Sheet.sound_blank
  leans := trivial
  accepts := by simp [Run.begin]
  scopes_sorted := .nil
  ledger_sorted := .nil
  mem_ledger := by
    intro u
    refine iff_of_false List.not_mem_nil ?_
    rintro ⟨-, hp⟩
    obtain ⟨p, hp⟩ := Option.ne_none_iff_exists'.1 hp
    have hu := Sheet.lt_size_of_parent? hp
    cases Nat.lt_one_iff.1 hu
    cases hp
  net := rfl
  size_le := Nat.le_refl _

/-- A run that begins follows the empty draft. -/
theorem follows_begin (pace : Pace) (cancel : Cancel) :
    Follows {} (.begin pace cancel Sheet.blank) :=
  ⟨rfl, .nil⟩

end Run

end Typist
