import Typist.Proofs.Run.Alike
import Typist.Proofs.Run.Cancellation

/-!
# Regions that leave no trace

A region types something and erases it again. If the scopes that are opened in it are closed in it,
and no others are, then nothing is left of it but nodes that hang nowhere: the erasure takes off
each container of the region when it has become empty, and stops at the node that the region began
in. It must stop there. If that node is an open scope that hangs somewhere and holds nothing, then
the erasure takes it off as well, which is why this case is left out.

* `Balanced` — a region closes the scopes that it opens, and no others;
* `Sheet.Full`, `Run.Tidy` — outside the open scopes there are no empty containers;
* `Sheet.Extends`, `Run.Inside` — what the strokes of a region leave as it was before the region;
* `typeTokens_region` — behind a balanced region everything is as it was in front of it, and what
  comes after shows as if there had been no region.
-/

namespace Typist

/-! ## Balanced regions -/

/-- Whether strokes close only scopes that are in the draft or that they have opened themselves. -/
def Draft.closesOwn (d : Draft) : List Stroke → Bool
  | [] => true
  | .closing tag :: xs => tag ∈ d.tags && (d.strike (.closing tag)).closesOwn xs
  | x :: xs => (d.strike x).closesOwn xs

/-- Tokens that close the scopes that they open, and no others. What is in their regions counts like
anything else. -/
structure Balanced (ts : List Token) : Prop where
  /-- each close closes a scope that the tokens have opened -/
  closes : ({} : Draft).closesOwn (script ts) = true
  /-- in the end no scope is open -/
  settled : (({} : Draft).after (script ts)).tags = []

/-- A stroke that closes a scope of the draft or erases a character of the draft, if it closes or
erases something. -/
def Stroke.IsOwn (d : Draft) : Stroke → Prop
  | .closing tag => tag ∈ d.tags
  | .erase => d.units ≠ []
  | _ => True

namespace Draft

/-- Strokes that close and erase nothing but what is in the draft or their own. -/
def Covers (d : Draft) : List Stroke → Prop
  | [] => True
  | x :: xs => x.IsOwn d ∧ (d.strike x).Covers xs

/-- Strokes that close nothing but their own and erase nothing but their own do neither. -/
theorem covers_of_closesOwn {d : Draft} {xs : List Stroke} (hclose : d.closesOwn xs = true)
    (herase : d.ErasesAbove 0 xs) : d.Covers xs := by
  induction xs generalizing d with
  | nil => trivial
  | cons x xs ih =>
    obtain ⟨hx, herase⟩ := herase
    cases x with
    | closing tag =>
      obtain ⟨htag, hclose⟩ := Bool.and_eq_true_iff.1 hclose
      have htag : tag ∈ d.tags := of_decide_eq_true htag
      exact ⟨htag, ih hclose herase⟩
    | erase => exact ⟨List.ne_nil_of_length_pos (hx rfl), ih hclose herase⟩
    | type | opening | pause | enter | hold | turn => exact ⟨trivial, ih hclose herase⟩

/-- Strokes that close only their own, one part after the other, do so together. -/
theorem closesOwn_append {d : Draft} {xs ys : List Stroke} (hx : d.closesOwn xs = true)
    (hy : (d.after xs).closesOwn ys = true) : d.closesOwn (xs ++ ys) = true := by
  induction xs generalizing d with
  | nil => exact hy
  | cons x xs ih =>
    cases x with
    | closing tag =>
      obtain ⟨htag, hx⟩ := Bool.and_eq_true_iff.1 hx
      exact Bool.and_eq_true_iff.2 ⟨htag, ih hx hy⟩
    | type | opening | pause | enter | hold | turn | erase => exact ih hx hy

theorem closesOwn_erase (d : Draft) (n : Nat) : d.closesOwn (List.replicate n .erase) = true := by
  induction n generalizing d with
  | zero => rfl
  | succ n ih => exact ih _

end Draft

/-- A balanced region closes and erases only what is its own. -/
theorem Balanced.covers {ts : List Token} (h : Balanced ts) :
    ({} : Draft).Covers (Token.delete ts).strokes :=
  Draft.covers_of_closesOwn (Draft.closesOwn_append h.closes (Draft.closesOwn_erase _ _))
    (Draft.erasesAbove_strokes (Nat.zero_le _) _)

/-- Behind a balanced region nothing of its own is open or typed. -/
theorem Balanced.after_eq {ts : List Token} (h : Balanced ts) :
    ({} : Draft).after (Token.delete ts).strokes = {} := by
  obtain ⟨fresh, hunits, hfresh⟩ := ({} : Draft).units_after_strokes (.delete ts)
  have hnone : fresh = [] := List.map_eq_nil_iff.1 hfresh
  have htags : (({} : Draft).after (Token.delete ts).strokes).tags = [] := by
    rw [Token.strokes, Draft.after_cons, Draft.after_append, Draft.after_cons, Draft.after_cons,
      Draft.tags_after_erase]
    exact h.settled
  rw [hnone] at hunits
  cases hd : ({} : Draft).after (Token.delete ts).strokes with
  | mk tags units =>
    rw [hd] at htags hunits
    cases htags
    cases hunits
    rfl

/-! ## Nothing empty is left behind

A container gets empty when its last child is taken off. An erasure goes on with the container then,
and what a close empties is the scope below, which it closes next or leaves open. So the containers
that may be empty are the open scopes. -/

namespace Sheet

variable {s : Sheet} {X : Node → Prop}

/-- Every container that hangs somewhere has something in it, with these exceptions. -/
def Full (s : Sheet) (X : Node → Prop) : Prop :=
  ∀ n p, s.parent? n = some p → (∀ value, s.kind n ≠ .glyph value) → ¬X n →
    (s.slot n).lastFirst ≠ []

theorem Full.mono {Y : Node → Prop} (h : s.Full X) (hXY : ∀ n, X n → Y n) : s.Full Y :=
  fun n p hp hk hn => h n p hp hk (mt (hXY n) hn)

/-- A node that is hung up leaves nothing empty if it is a glyph, or one of those that may be empty. -/
theorem Full.hang (h : s.Full X) {p : Node} {k : Kind} (hp : p < s.size)
    (hk : (∃ value, k = .glyph value) ∨ X s.size) : (s.hang p k).Full X := by
  intro n q hq hkind hn
  rw [kind_hang hp] at hkind
  rw [parent?_hang hp] at hq
  rw [lastFirst_hang hp]
  by_cases hnew : n = s.size
  · rw [if_pos hnew] at hkind
    rcases hk with ⟨value, rfl⟩ | hX
    · exact absurd rfl (hkind value)
    · exact absurd (hnew ▸ hX) hn
  · rw [if_neg hnew] at hkind hq
    split
    · simp
    · exact h n q hq hkind hn

/-- When a node is taken off, the one that it hung from may be empty. -/
theorem Full.remove (hs : Sound s) {p c : Node} (hp : s.parent? c = some p)
    (h : s.Full fun n => n = c ∨ X n) : (s.remove p c).Full fun n => n = p ∨ X n := by
  intro n q hq hkind hn
  rw [not_or] at hn
  obtain ⟨hne, hq⟩ := hs.parent?_of_remove hp hq
  rw [hs.kind_remove hp] at hkind
  rw [hs.lastFirst_remove hp, if_neg hn.1]
  exact h n q hq hkind (not_or.2 ⟨hne, hn.2⟩)

/-- A node that is full is no exception. -/
theorem Full.drop {m : Node} (h : s.Full fun n => n = m ∨ X n)
    (hm : ∀ p, s.parent? m = some p → ¬X m → (s.slot m).lastFirst ≠ []) : s.Full X := by
  intro n p hp hk hn
  by_cases hnm : n = m
  · subst hnm
    exact hm p hp hn
  · exact h n p hp hk (not_or.2 ⟨hnm, hn⟩)

end Sheet

namespace Run

variable {X : Node → Prop}

/-- Behind the way up from a node the node is no exception any more. -/
theorem prune_full {r : Run Sheet} {steps : Nat} {node : Node} (hs : r.surface.Sound)
    (hlt : node < steps) (h : r.surface.Full fun n => n = node ∨ X n) :
    (prune steps node r).surface.Full X := by
  induction steps generalizing node r with
  | zero => exact absurd hlt (Nat.not_lt_zero _)
  | succ steps ih =>
    unfold prune
    split
    · rename_i hfull
      simp only [Bool.or_eq_true, decide_eq_true_eq] at hfull
      refine h.drop fun p hp _ => ?_
      rcases hfull with hroot | hpos
      · exact absurd hroot (hs.ne_root hp)
      · exact Sheet.childCount_pos_iff.1 hpos
    · split
      · rename_i p hp
        have hup : p < node := hs.older hp
        exact ih (r := r.remove p node) (hs.remove hp)
          (Nat.lt_of_lt_of_le hup (Nat.le_of_lt_succ hlt)) (h.remove hs hp)
      · rename_i hnone
        refine h.drop fun p hp => ?_
        have hnone' : r.surface.parent? node = none := hnone
        rw [hnone'] at hp
        cases hp

/-- Closed scopes are no exceptions any more. -/
theorem foldl_removeIfEmpty_full {r : Run Sheet} {nodes kept : List Node} (hs : r.surface.Sound)
    (hleans : r.surface.Leans (nodes ++ kept)) (h : r.surface.Full (· ∈ nodes ++ kept)) :
    (nodes.foldl removeIfEmpty r).surface.Full (· ∈ kept) := by
  induction nodes generalizing r with
  | nil => exact h
  | cons node nodes ih =>
    have h' : r.surface.Full fun n => n = node ∨ n ∈ nodes ++ kept :=
      h.mono fun n hn => List.mem_cons.1 hn
    rw [List.foldl_cons]
    unfold removeIfEmpty
    split
    · rename_i hpos
      exact ih hs hleans.2 (h'.drop fun _ _ _ => Sheet.childCount_pos_iff.1 hpos)
    · split
      · rename_i p hp
        have hoff := h'.remove hs hp
        have hleans' : (r.surface.remove p node).Leans (nodes ++ kept) :=
          hleans.2.of_parent? (Nat.le_of_eq (Sheet.size_remove _ _ _).symm) fun n q _ hq =>
            (hs.parent?_of_remove hp hq).2
        refine ih (r := r.remove p node) (hs.remove hp) hleans' (hoff.drop fun q hq hnot => ?_)
        -- a scope hangs from the scope below it, which is still an exception, or from the root
        obtain ⟨hne, hq⟩ := hs.parent?_of_remove hp hq
        have hbelow : p = (nodes ++ kept).headD .root := hleans.1.2.2 p hp
        cases hrest : nodes ++ kept with
        | nil =>
          rw [hrest] at hbelow
          exact absurd hbelow (hs.ne_root hq)
        | cons m rest =>
          rw [hrest] at hbelow hnot
          exact absurd (hbelow ▸ List.mem_cons_self) hnot
      · rename_i hnone
        have hnone' : r.surface.parent? node = none := hnone
        refine ih hs hleans.2 (h'.drop fun p hp => ?_)
        rw [hnone'] at hp
        cases hp

/-- Outside the open scopes of a run there are no empty containers. -/
def Tidy (r : Run Sheet) : Prop :=
  r.surface.Full (· ∈ r.scopes)

namespace Tidy

variable {r : Run Sheet}

/-- A close leaves nothing empty but open scopes, because it closes the innermost first. -/
theorem closing (h : Tidy r) (hr : Shaped r) (tag : Tag) : Tidy (r.made (.closing tag)) := by
  simp only [Run.made]
  cases hc : closing? r.surface tag r.scopes with
  | none =>
    simp only [closeScope, hc]
    exact h
  | some found =>
    obtain ⟨closed, kept⟩ := found
    have hscopes := closing?_append hc
    have hleans := hr.leans
    have hfull : r.surface.Full (· ∈ r.scopes) := h
    rw [hscopes] at hleans hfull
    have hclosed := foldl_removeIfEmpty_full (r := { r with scopes := kept }) hr.sound hleans hfull
    have hbooks := foldl_removeIfEmpty_books closed { r with scopes := kept }
    rw [closeScope_of_eq_some hc, Tidy, hbooks.scopes]
    exact hclosed

/-- An erasure leaves nothing empty but open scopes, because it climbs as far as it empties something.
-/
theorem erase (h : Tidy r) (hr : Shaped r) : Tidy (r.made .erase) := by
  cases hl : r.ledger with
  | nil =>
    rw [made_erase_of_nil hl]
    exact h
  | cons node ledger =>
    have hmem : node ∈ r.ledger := by
      rw [hl]
      exact List.mem_cons_self
    obtain ⟨p, hp⟩ := Option.ne_none_iff_exists'.1 (hr.mem_ledger.1 hmem).2
    -- the way up is not longer than the steps that are allowed for it
    have hlt : p < r.history.length + 1 :=
      Nat.lt_trans (hr.sound.older hp)
        (Nat.lt_of_lt_of_le (hr.lt_size_of_mem_ledger hmem) hr.size_le)
    have hoff : (takeOff node { r with ledger }).surface.Full (· ∈ r.scopes) := by
      have hp' : Surface.parent? r.surface node = some p := hp
      simp only [takeOff, hp']
      exact prune_full (r := remove { r with ledger } p node) (hr.sound.remove hp) hlt
        ((h.mono fun _ => .inr).remove hr.sound hp)
    have hbooks := takeOff_books node { r with ledger }
    rw [made_erase_of_cons hl]
    have hscopes : ((takeOff node { r with ledger }).count
        fun s => { s with erased := s.erased + 1 }).scopes = r.scopes := hbooks.scopes
    rw [Tidy, hscopes]
    exact hoff

/-- Every stroke leaves nothing empty but open scopes. -/
theorem made (h : Tidy r) (hr : Shaped r) (x : Stroke) : Tidy (r.made x) := by
  cases x with
  | type value => exact Sheet.Full.hang h hr.accepts_current.lt_size (.inl ⟨value, rfl⟩)
  | opening tag =>
    have hmore : r.surface.Full (· ∈ r.surface.size :: r.scopes) :=
      h.mono fun _ hn => List.mem_cons_of_mem _ hn
    exact hmore.hang hr.accepts_current.lt_size (.inr List.mem_cons_self)
  | closing tag => exact h.closing hr tag
  | erase => exact h.erase hr
  | pause | enter | turn | hold => exact h

theorem of_waits (h : Tidy r) {r' : Run Sheet} (hw : Waits r r') : Tidy r' := by
  rw [Tidy, hw.surface, hw.scopes]
  exact h

/-- So do strokes in a row. -/
theorem strikeAll (h : Tidy r) (hr : Shaped r) {pace : Pace} {xs : List Stroke} {r' : Run Sheet}
    (hgo : r.strikeAll pace xs = .goes r') : Tidy r' := by
  let I : List Stroke → Draft → Run Sheet → Prop := fun _ _ r => Tidy r ∧ Shaped r
  have hmade (x xs d r) (h : I (x :: xs) d r) : I xs (d.strike x) (r.made x) :=
    ⟨h.1.made h.2 x, h.2.made x⟩
  have hwaits (xs d r r') (hw : Waits r r') (h : I xs d r) : I xs d r' :=
    ⟨h.1.of_waits hw, h.2.of_waits hw⟩
  exact (strikeAll_keeps (d := {}) hmade hwaits ⟨h, hr⟩ hgo).1

end Tidy

/-- A blank sheet has no containers. -/
theorem tidy_begin (pace : Pace) (cancel : Cancel) : Tidy (.begin pace cancel Sheet.blank) := by
  intro n p hp
  have hn := Sheet.lt_size_of_parent? hp
  cases Nat.lt_one_iff.1 hn
  cases hp

end Run

/-! ## What a region can reach -/

namespace Sheet

variable {c : Node} {s t : Sheet}

/-- The second sheet has new nodes that hang from one another or from one old node; apart from that
its links are those of the first one. -/
structure Extends (c : Node) (s t : Sheet) : Prop where
  size_le : s.size ≤ t.size
  kind_eq : ∀ n < s.size, t.kind n = s.kind n
  parent?_eq : ∀ n < s.size, t.parent? n = s.parent? n
  fresh : ∀ n p, s.size ≤ n → t.parent? n = some p → s.size ≤ p ∨ p = c

theorem Extends.refl (s : Sheet) : Extends c s s where
  size_le := Nat.le_refl _
  kind_eq := fun _ _ => rfl
  parent?_eq := fun _ _ => rfl
  fresh := fun _ _ hn hp => absurd (lt_size_of_parent? hp) (Nat.not_lt_of_le hn)

/-- What is hung from a new node, or from the one old node, is new. -/
theorem Extends.hang (h : Extends c s t) {p : Node} {k : Kind} (hp : p < t.size)
    (hnew : s.size ≤ p ∨ p = c) : Extends c s (t.hang p k) where
  size_le := by
    rw [size_hang]
    exact Nat.le_succ_of_le h.size_le
  kind_eq := by
    intro n hn
    rw [kind_hang_of_lt hp (Nat.lt_of_lt_of_le hn h.size_le), h.kind_eq n hn]
  parent?_eq := by
    intro n hn
    rw [parent?_hang_of_lt hp (Nat.lt_of_lt_of_le hn h.size_le), h.parent?_eq n hn]
  fresh := by
    intro n q hn hq
    rw [parent?_hang hp] at hq
    split at hq
    · cases hq
      exact hnew
    · exact h.fresh n q hn hq

/-- The old links stay when only new nodes are taken off. -/
theorem Extends.shed (h : Extends c s t) (ht : Sound t) {t' : Sheet} {gone : List Node}
    (hshed : Sheds t gone t') (hgone : ∀ n ∈ gone, s.size ≤ n) : Extends c s t' where
  size_le := by
    rw [hshed.size_eq]
    exact h.size_le
  kind_eq := by
    intro n hn
    rw [hshed.kind_eq ht, h.kind_eq n hn]
  parent?_eq := by
    intro n hn
    rw [hshed.parent?_eq ht, if_neg fun hmem => Nat.not_lt_of_le (hgone n hmem) hn,
      h.parent?_eq n hn]
  fresh := fun n p hn hp => h.fresh n p hn (hshed.parent?_of_eq_some ht hp).2

theorem Extends.remove (h : Extends c s t) (ht : Sound t) {p n : Node} (hp : t.parent? n = some p)
    (hn : s.size ≤ n) : Extends c s (t.remove p n) where
  size_le := by
    rw [size_remove]
    exact h.size_le
  kind_eq := by
    intro m hm
    rw [ht.kind_remove hp, h.kind_eq m hm]
  parent?_eq := by
    intro m hm
    rw [ht.parent?_remove hp, if_neg (by grind), h.parent?_eq m hm]
  fresh := fun m q hm hq => h.fresh m q hm (ht.parent?_of_remove hp hq).2

/-- The root, or a node that something hangs from, or that itself hangs nowhere: what taking off
empty nodes does not take off. -/
def Firm (s : Sheet) (c : Node) : Prop :=
  c = .root ∨ (∃ m, s.parent? m = some c) ∨ s.parent? c = none

/-- On the way up from a new node there are only new nodes, if the old one that they hang from is
firm. -/
theorem climbs_extends (hfirm : s.Firm c) (hc : c < s.size) :
    Run.Climbs (fun t node => t.Sound ∧ Extends c s t ∧ (s.size ≤ node ∨ node = c))
      fun node => s.size ≤ node := by
  rintro t node p ⟨ht, hext, hnode⟩ hroot hempty hp
  have hnew : s.size ≤ node := by
    rcases hnode with hnew | rfl
    · exact hnew
    · -- the old node is the root, or not empty, or has no parent, against what is known of `node`
      rcases hfirm with heq | ⟨m, hm⟩ | hnone
      · exact absurd heq hroot
      · have hmem := ht.mem_iff.2 ((hext.parent?_eq m (lt_size_of_parent? hm)).trans hm)
        rw [hempty] at hmem
        cases hmem
      · rw [hext.parent?_eq node hc, hnone] at hp
        cases hp
  exact ⟨hnew, ht.remove hp, hext.remove ht hp hnew, hext.fresh node p hnew hp⟩

/-- On a sound sheet the children of a node are told by the parents. -/
theorem Sound.children_congr (hs : Sound s) (ht : Sound t) {n : Node}
    (h : ∀ m, t.parent? m = some n ↔ s.parent? m = some n) : t.children n = s.children n := by
  have hlast : (t.slot n).lastFirst = (s.slot n).lastFirst := by
    refine (ht.sorted n).eq_of_mem_iff (hs.sorted n) fun m => ?_
    rw [ht.mem_iff, hs.mem_iff, h]
  rw [children, children, hlast]

end Sheet

namespace Run

/-- A run in a region that began when it stood like `a`; the draft says what is open and typed of
the region's own. -/
structure Inside (a : Run Sheet) (d : Draft) (r : Run Sheet) : Prop where
  surface : Sheet.Extends a.current a.surface r.surface
  scopes : ∃ own, r.scopes = own ++ a.scopes ∧ (∀ n ∈ own, a.surface.size ≤ n) ∧
    own.map r.surface.tag? = d.tags.map some
  ledger : ∃ own, r.ledger = own ++ a.ledger ∧ (∀ u ∈ own, a.surface.size ≤ u) ∧
    own.length = d.units.length

/-- A close of a scope of its own finds it among these. -/
theorem closing?_append_of_mem {s : Sheet} {tag : Tag} {own : List Node} {tags : List Tag}
    (h : own.map s.tag? = tags.map some) (hmem : tag ∈ tags) (others : List Node) :
    ∃ closed kept, own = closed ++ kept ∧
      closing? s tag (own ++ others) = some (closed, kept ++ others) ∧
      kept.map s.tag? = (closeTag tag tags).map some := by
  cases hc : closing? s tag own with
  | none => exact absurd hmem (closing?_eq_none h hc)
  | some found =>
    obtain ⟨closed, kept⟩ := found
    refine ⟨closed, kept, closing?_append hc, ?_, ?_⟩
    · clear h
      induction own generalizing closed with
      | nil => cases hc
      | cons n own ih =>
        unfold closing? at hc
        rw [List.cons_append, closing?]
        split at hc
        · rename_i htag
          cases hc
          rw [if_pos htag]
        · rename_i htag
          obtain ⟨⟨more, rest⟩, hmore, hpair⟩ := Option.map_eq_some_iff.1 hc
          cases hpair
          rw [if_neg htag, ih more hmore]
          rfl
    · obtain ⟨above, below, rfl, habove, -, hkept⟩ := closing?_eq_some h hc
      rw [closeTag_append habove]
      exact hkept

namespace Inside

variable {a r : Run Sheet} {d : Draft}

/-- A region begins with nothing of its own. -/
theorem start (a : Run Sheet) : Inside a {} a :=
  ⟨.refl _, ⟨[], rfl, by simp, rfl⟩, ⟨[], rfl, by simp, rfl⟩⟩

/-- What is typed in a region hangs from what is new, or from where the region began. -/
theorem current_new (h : Inside a d r) : a.surface.size ≤ r.current ∨ r.current = a.current := by
  obtain ⟨own, hscopes, hnew, -⟩ := h.scopes
  rw [current, hscopes]
  cases own with
  | nil => exact .inr rfl
  | cons n own => exact .inl (hnew n List.mem_cons_self)

/-- A character that is typed in a region is the region's own. -/
theorem type (h : Inside a d r) (hr : Shaped r) (value : Char) :
    Inside a (d.strike (.type value)) (r.made (.type value)) := by
  have hp := hr.accepts_current.lt_size
  obtain ⟨own, hscopes, hnew, htags⟩ := h.scopes
  obtain ⟨typed, hledger, htyped, hlen⟩ := h.ledger
  refine ⟨h.surface.hang hp h.current_new, ⟨own, hscopes, hnew, ?_⟩,
    ⟨r.surface.size :: typed, congrArg (List.cons _) hledger, ?_, congrArg Nat.succ hlen⟩⟩
  · refine Eq.trans (Sheet.map_tag?_hang hp fun n hn => hr.leans.lt_size n ?_) htags
    rw [hscopes]
    exact List.mem_append_left _ hn
  · rintro u (_ | ⟨_, hu⟩)
    · exact h.surface.size_le
    · exact htyped u hu

/-- A scope that is opened in a region is the region's own. -/
theorem opening (h : Inside a d r) (hr : Shaped r) (tag : Tag) :
    Inside a (d.strike (.opening tag)) (r.made (.opening tag)) := by
  have hp := hr.accepts_current.lt_size
  obtain ⟨own, hscopes, hnew, htags⟩ := h.scopes
  have hnewtag : (r.surface.hang r.current (.container tag)).tag? r.surface.size = some tag := by
    rw [Sheet.tag?_eq_some_iff, Sheet.kind_hang hp, if_pos rfl]
  have howntags : own.map (r.surface.hang r.current (.container tag)).tag? = d.tags.map some := by
    refine Eq.trans (Sheet.map_tag?_hang hp fun n hn => hr.leans.lt_size n ?_) htags
    rw [hscopes]
    exact List.mem_append_left _ hn
  refine ⟨h.surface.hang hp h.current_new, ⟨r.surface.size :: own, congrArg (List.cons _) hscopes,
    ?_, congrArg₂ List.cons hnewtag howntags⟩, h.ledger⟩
  rintro n (_ | ⟨_, hn⟩)
  · exact h.surface.size_le
  · exact hnew n hn

/-- A close of the region's own takes off nothing else. -/
theorem closing (h : Inside a d r) (hr : Shaped r) {tag : Tag} (htag : tag ∈ d.tags) :
    Inside a (d.strike (.closing tag)) (r.made (.closing tag)) := by
  obtain ⟨own, hscopes, hnew, htags⟩ := h.scopes
  obtain ⟨closed, kept, rfl, hc, hkept⟩ := closing?_append_of_mem htags htag a.scopes
  rw [← hscopes] at hc
  obtain ⟨gone, hshed, hgone⟩ :=
    foldl_removeIfEmpty_sheds (r := { r with scopes := kept ++ a.scopes }) hr.sound closed
  have hbooks := foldl_removeIfEmpty_books closed { r with scopes := kept ++ a.scopes }
  simp only [Run.made]
  rw [closeScope_of_eq_some hc]
  refine ⟨?_, ⟨kept, hbooks.scopes, ?_, ?_⟩, ?_⟩
  · exact h.surface.shed hr.sound hshed fun n hn => hnew n (List.mem_append_left _ (hgone n hn))
  · exact fun n hn => hnew n (List.mem_append_right _ hn)
  · refine Eq.trans ?_ hkept
    exact List.map_congr_left fun n _ => hshed.tag?_eq hr.sound n
  · rw [hbooks.ledger]
    exact h.ledger

/-- An erasure of the region's own takes off nothing older: it climbs no further than to where the region
began, because the node there is firm. -/
theorem erase (h : Inside a d r) (ha : Shaped a) (hfirm : a.surface.Firm a.current) (hr : Shaped r)
    (hunits : d.units ≠ []) : Inside a (d.strike .erase) (r.made .erase) := by
  obtain ⟨own, hscopes, hnew, htags⟩ := h.scopes
  obtain ⟨typed, hledger, htyped, hlen⟩ := h.ledger
  cases typed with
  | nil => exact absurd (List.eq_nil_of_length_eq_zero hlen.symm) hunits
  | cons node typed =>
    have hmem : node ∈ r.ledger := by
      rw [hledger]
      exact List.mem_cons_self
    obtain ⟨⟨value, hk⟩, hp⟩ := hr.mem_ledger.1 hmem
    obtain ⟨p, hp⟩ := Option.ne_none_iff_exists'.1 hp
    have hnode := htyped node List.mem_cons_self
    obtain ⟨gone, hshed, hgone, hscopes', hledger', -⟩ :=
      made_erase_of (Sheet.climbs_extends hfirm ha.accepts_current.lt_size) hledger
        (hr.sound.leaf hk) hp
        ⟨hr.sound.remove hp, h.surface.remove hr.sound hp hnode, h.surface.fresh node p hnode hp⟩
    refine ⟨h.surface.shed hr.sound hshed ?_, ⟨own, hscopes'.trans hscopes, hnew, ?_⟩,
      ⟨typed, hledger', fun u hu => htyped u (List.mem_cons_of_mem _ hu), ?_⟩⟩
    · rintro n (_ | ⟨_, hn⟩)
      · exact hnode
      · exact hgone n hn
    · refine Eq.trans ?_ htags
      exact List.map_congr_left fun n _ => hshed.tag?_eq hr.sound n
    · change typed.length = d.units.tail.length
      rw [List.length_tail, ← hlen, List.length_cons, Nat.add_sub_cancel]

/-- A stroke that closes and erases only what is the region's own stays inside. -/
theorem made (h : Inside a d r) (ha : Shaped a) (hfirm : a.surface.Firm a.current) (hr : Shaped r)
    {x : Stroke} (hx : x.IsOwn d) : Inside a (d.strike x) (r.made x) := by
  cases x with
  | type value => exact h.type hr value
  | opening tag => exact h.opening hr tag
  | closing tag => exact h.closing hr hx
  | erase => exact h.erase ha hfirm hr hx
  | pause | enter | turn => exact ⟨h.surface, h.scopes, h.ledger⟩
  | hold => exact h

theorem of_waits (h : Inside a d r) {r' : Run Sheet} (hw : Waits r r') : Inside a d r' where
  surface := by
    rw [hw.surface]
    exact h.surface
  scopes := by
    rw [hw.surface, hw.scopes]
    exact h.scopes
  ledger := by
    rw [hw.ledger]
    exact h.ledger

end Inside

/-- Strokes that close and erase only what is their own stay inside. -/
theorem inside_strikeAll {pace : Pace} {a r r' : Run Sheet} {d : Draft} {xs : List Stroke}
    (ha : Shaped a) (hfirm : a.surface.Firm a.current) (h : Inside a d r) (hr : Shaped r)
    (hxs : d.Covers xs) (hgo : r.strikeAll pace xs = .goes r') :
    Inside a (d.after xs) r' ∧ Shaped r' := by
  let I : List Stroke → Draft → Run Sheet → Prop := fun xs d r =>
    (Inside a d r ∧ Shaped r) ∧ d.Covers xs
  have hmade (x xs d r) (h : I (x :: xs) d r) : I xs (d.strike x) (r.made x) :=
    ⟨⟨h.1.1.made ha hfirm h.1.2 h.2.1, h.1.2.made x⟩, h.2.2⟩
  have hwaits (xs d r r') (hw : Waits r r') (h : I xs d r) : I xs d r' :=
    ⟨⟨h.1.1.of_waits hw, h.1.2.of_waits hw⟩, h.2⟩
  exact (strikeAll_keeps hmade hwaits ⟨⟨h, hr⟩, hxs⟩ hgo).1

/-! ## Behind a region -/

variable {a b : Run Sheet}

/-- When nothing of the region's own is open or typed any more, nothing new hangs anywhere: a new
container that did would hold something newer still, and in the end a glyph of the ledger. -/
theorem Inside.parent?_eq_none (h : Inside a {} b) (ha : Shaped a) (hb : Shaped b) (ht : Tidy b)
    {n : Node} (hn : a.surface.size ≤ n) : b.surface.parent? n = none := by
  obtain ⟨own, hscopes, -, htags⟩ := h.scopes
  obtain ⟨typed, hledger, -, hlen⟩ := h.ledger
  cases List.map_eq_nil_iff.1 htags
  cases List.eq_nil_of_length_eq_zero hlen
  rw [List.nil_append] at hscopes hledger
  -- by induction from the newest node down to the oldest one of the region
  generalize hleft : b.surface.size - n = left
  induction left using Nat.strongRecOn generalizing n with
  | ind left ih =>
    cases hp : b.surface.parent? n with
    | none => rfl
    | some p =>
      have hlt := Sheet.lt_size_of_parent? hp
      have hglyph : ∀ value, b.surface.kind n ≠ .glyph value := by
        intro value hk
        have hmem := hb.mem_ledger.2 ⟨⟨value, hk⟩, by rw [hp]; simp⟩
        rw [hledger] at hmem
        exact Nat.not_lt_of_le hn (ha.lt_size_of_mem_ledger hmem)
      have hopen : n ∉ b.scopes := by
        rw [hscopes]
        exact fun hmem => Nat.not_lt_of_le hn (ha.leans.lt_size n hmem)
      obtain ⟨m, hm⟩ := List.exists_mem_of_ne_nil _ (ht n p hp hglyph hopen)
      have hm := hb.sound.mem_iff.1 hm
      have hnm : n < m := hb.sound.older hm
      have hnone := ih (b.surface.size - m) (by grind) (Nat.le_trans hn (Nat.le_of_lt hnm)) rfl
      rw [hnone] at hm
      cases hm

/-- Behind a region that leaves nothing of its own, a node that was there before has the children
that it had. -/
theorem Inside.children_eq (h : Inside a {} b) (ha : Shaped a) (hb : Shaped b) (ht : Tidy b)
    (n : Node) : b.surface.children n = a.surface.children n := by
  refine ha.sound.children_congr hb.sound fun m => ?_
  by_cases hm : m < a.surface.size
  · rw [h.surface.parent?_eq m hm]
  · have hnone : a.surface.parent? m = none := by
      rw [Sheet.parent?, Sheet.slot_of_size_le (Nat.le_of_not_lt hm)]
    rw [h.parent?_eq_none ha hb ht (Nat.le_of_not_lt hm), hnone]

/-- When nothing of the region's own is open, the scopes are those in front of it. -/
theorem Inside.scopes_eq (h : Inside a {} b) : b.scopes = a.scopes := by
  obtain ⟨own, hscopes, -, htags⟩ := h.scopes
  cases List.map_eq_nil_iff.1 htags
  exact hscopes

/-- When nothing of the region's own is typed, the ledger is that in front of it. -/
theorem Inside.ledger_eq (h : Inside a {} b) : b.ledger = a.ledger := by
  obtain ⟨typed, hledger, -, hlen⟩ := h.ledger
  cases List.eq_nil_of_length_eq_zero hlen
  exact hledger

/-- Behind such a region a run is like the run in front of it, the handles that come next aside. -/
theorem Inside.alike (h : Inside a {} b) (ha : Shaped a) (hb : Shaped b) (ht : Tidy b) :
    Alike a.surface.size (b.surface.size - a.surface.size) [] a b where
  surface := by
    have hsize := h.surface.size_le
    refine ⟨ha.sound.pos, Nat.le_refl _, by omega, ?_, ?_, ?_⟩
    · intro n hn
      rw [shift_of_lt hn, h.surface.kind_eq n hn]
    · intro n hn _
      rw [shift_of_lt hn, h.surface.parent?_eq n hn]
      cases hp : a.surface.parent? n with
      | none => rfl
      | some p =>
        rw [Option.map_some, shift_of_lt (ha.sound.parent?_lt_size hp)]
    · intro n hn
      have hchildren := congrArg List.reverse (h.children_eq ha hb ht n)
      rw [Sheet.children, Sheet.children, List.reverse_reverse, List.reverse_reverse] at hchildren
      rw [shift_of_lt hn, hchildren, ite_self, List.append_nil]
      refine (map_shift_of_lt fun m hm => ?_).symm
      exact Sheet.lt_size_of_parent? (ha.sound.mem_iff.1 hm)
  scopes := by
    rw [h.scopes_eq]
    exact (map_shift_of_lt ha.leans.lt_size).symm
  ledger := by
    rw [h.ledger_eq]
    exact (map_shift_of_lt fun _ hu => ha.lt_size_of_mem_ledger hu).symm
  size_le := Nat.le_trans h.surface.size_le hb.size_le

/-- A run that is like another one under the same handles can take its place. -/
theorem Alike.of_zero {c : Run Sheet} {base base' d : Nat} {old : List Node}
    (h : Alike base' 0 [] c a) (h' : Alike base d old a b) : Alike base d old c b where
  surface := h.surface.of_zero h'.surface
  scopes := by
    rw [h'.scopes, h.scopes, funext (shift_zero base'), List.map_id']
  ledger := by
    rw [h'.ledger, h.ledger, funext (shift_zero base'), List.map_id']
  size_le := by
    have hsize := h.surface.size_eq
    have hle := h'.size_le
    omega

/-- Where a region may begin: what new nodes are hung from is the root, or holds something, or hangs
nowhere. -/
theorem Shaped.firm_current {a : Run Sheet} (h : Shaped a)
    (htop : a.current = .root ∨ a.surface.childCount a.current ≠ 0 ∨
      a.surface.parent? a.current = none) : a.surface.Firm a.current := by
  refine htop.imp_right fun h' => h'.imp_left fun hcount => ?_
  obtain ⟨m, hm⟩ := List.exists_mem_of_ne_nil _
    (Sheet.childCount_pos_iff.1 (Nat.pos_of_ne_zero hcount))
  exact ⟨m, h.sound.mem_iff.1 hm⟩

/-- Behind a balanced region nothing of its own is open or typed. -/
theorem inside_region {pace : Pace} {region : List Token} {a b : Run Sheet} (ha : Shaped a)
    (hfirm : a.surface.Firm a.current) (hregion : Balanced region)
    (hgo : a.strikeAll pace (script [.delete region]) = .goes b) : Inside a {} b ∧ Shaped b := by
  have hscript : script [.delete region] = (Token.delete region).strokes := List.append_nil _
  rw [hscript] at hgo
  have hinside := inside_strikeAll ha hfirm (.start a) ha hregion.covers hgo
  rwa [hregion.after_eq] at hinside

/-- What is done behind such a region shows as it does without the region. -/
theorem Inside.forest_eq {pace pace' : Pace} {a b c v w : Run Sheet} {xs : List Stroke}
    (h : Inside a {} b) (ha : Shaped a) (hb : Shaped b) (ht : Tidy b) (hc : Shaped c)
    {d : Draft} (hd : Follows d c) (halike : Alike 1 0 [] c a)
    (hw : b.strikeAll pace xs = .goes w) (hv : c.strikeAll pace' xs = .goes v) :
    w.surface.forest = v.surface.forest := by
  have hsame := (halike.of_zero (h.alike ha hb ht)).strikeAll hc hv hw
  exact hsame.surface.forest_eq (shaped_strikeAll hc hd hv).1.sound

end Run

/-- **A balanced region leaves no trace.** A region is done behind other tokens, on a blank sheet,
and where it begins the current node is the root, or holds something, or hangs nowhere. Then the
open scopes, the ledger and the links of all nodes that there were are behind the region what they
were in front of it, and no other node hangs from the root. What follows the region, at whatever
pace, shows as if the region were not there. -/
theorem typeTokens_region (pace : Pace) (cancel : Cancel) (ts region : List Token)
    (hregion : Balanced region)
    (hend : (typeTokens pace cancel (ts ++ [.delete region]) Sheet.blank).halt = none)
    (htop : let a := (typeTokens pace cancel ts Sheet.blank).final
      a.current = .root ∨ a.surface.childCount a.current ≠ 0 ∨
        a.surface.parent? a.current = none) :
    let a := (typeTokens pace cancel ts Sheet.blank).final
    let b := (typeTokens pace cancel (ts ++ [.delete region]) Sheet.blank).final
    b.scopes = a.scopes ∧ b.ledger = a.ledger ∧
      (∀ n : Node, n < a.surface.size → b.surface.parent? n = a.surface.parent? n ∧
        b.surface.children n = a.surface.children n) ∧
      (∀ n : Node, a.surface.size ≤ n → b.surface.attached? n = some false) ∧
      ∀ (more : List Token) (pace' : Pace) (cancel' : Cancel),
        let whole := typeTokens pace cancel (ts ++ [.delete region] ++ more) Sheet.blank
        let plain := typeTokens pace' cancel' (ts ++ more) Sheet.blank
        whole.halt = none → plain.halt = none →
          whole.final.surface.spans = plain.final.surface.spans ∧
            whole.final.surface.markup = plain.final.surface.markup := by
  obtain ⟨b, hb, hbfinal⟩ := exists_goes_of_halt hend
  have htidy := (Run.tidy_begin pace cancel).strikeAll (Run.shaped_begin pace cancel) hb
  have hsplit := hb
  rw [script_append] at hsplit
  obtain ⟨a, ha, hgo⟩ := Run.strikeAll_append_eq_goes hsplit
  have hashaped := (Run.shaped_strikeAll (Run.shaped_begin _ _) (Run.follows_begin _ _) ha).1
  rw [final_of_goes ha] at htop
  rw [final_of_goes ha, hbfinal]
  obtain ⟨hinside, hbshaped⟩ :=
    Run.inside_region hashaped (hashaped.firm_current htop) hregion hgo
  refine ⟨hinside.scopes_eq, hinside.ledger_eq, ?_, ?_, ?_⟩
  · intro n hn
    exact ⟨hinside.surface.parent?_eq n hn, hinside.children_eq hashaped hbshaped htidy n⟩
  · intro n hn
    have hroot : n ≠ Node.root := by
      rintro rfl
      exact Nat.not_lt_of_le hn hashaped.sound.pos
    have hnone := hinside.parent?_eq_none hashaped hbshaped htidy hn
    rw [Sheet.attached?, Sheet.reachesRoot?, if_neg hroot, hnone]
  · intro more pace' cancel' whole plain hwhole hplain
    obtain ⟨w, hw, hwfinal⟩ := exists_goes_of_halt hwhole
    obtain ⟨v, hv, hvfinal⟩ := exists_goes_of_halt hplain
    rw [script_append] at hw hv
    obtain ⟨b', hb', hw⟩ := Run.strikeAll_append_eq_goes hw
    obtain ⟨c, hc, hv⟩ := Run.strikeAll_append_eq_goes hv
    cases (hb.symm.trans hb' : Step.goes b = .goes b')
    obtain ⟨hcshaped, hcfollows⟩ :=
      Run.shaped_strikeAll (Run.shaped_begin _ _) (Run.follows_begin _ _) hc
    -- without the region the tokens before it do the same, in the other pace
    have halike :=
      (Run.alike_begin pace' pace cancel' cancel).strikeAll (Run.shaped_begin _ _) hc ha
    have hforest := hinside.forest_eq hashaped hbshaped htidy hcshaped hcfollows halike hw hv
    rw [show whole.final = w from hwfinal, show plain.final = v from hvfinal]
    exact ⟨congrArg (Tree.spans .plain) hforest, congrArg Tree.markups hforest⟩

/-- A region in an open scope that holds a character. Characters are typed in it, the first one outside
of its own scopes; a region is in it; and a close in it goes across two scopes. -/
theorem typeTokens_region_across :
    let ts : List Token := [.scopeStart .bold, .text ['a']]
    let region : List Token := [.text ['x'], .scopeStart .italic, .text ['y'], .delete [.text ['z']],
      .scopeStart .gray, .scopeEnd .italic]
    let more : List Token := [.text ['b']]
    let fast : Pace := { Pace.steady with typing := 7 }
    let a := (typeTokens .steady .never ts Sheet.blank).final
    let b := (typeTokens .steady .never (ts ++ [.delete region]) Sheet.blank).final
    (Balanced region ∧ (typeTokens .steady .never (ts ++ [.delete region]) Sheet.blank).halt = none ∧
        a.current = 1 ∧ a.surface.childCount a.current ≠ 0) ∧
      b.scopes = a.scopes ∧ b.ledger = a.ledger ∧ a.ledger = [2] ∧
      b.surface.children 1 = a.surface.children 1 ∧ b.surface.attached? 3 = some false ∧
      (typeTokens .steady .never (ts ++ [.delete region] ++ more) Sheet.blank).final.surface.spans =
        (typeTokens fast .never (ts ++ more) Sheet.blank).final.surface.spans ∧
      (typeTokens fast .never (ts ++ more) Sheet.blank).final.surface.markup =
        "<b>ab</b>".toList := by
  intro ts region more fast a b
  have hregion : Balanced region := ⟨by decide, by decide⟩
  have hend : (typeTokens .steady .never (ts ++ [.delete region]) Sheet.blank).halt = none := by
    decide +kernel
  have htop : a.current = 1 ∧ a.surface.childCount a.current ≠ 0 := by decide +kernel
  have hsize : 1 < a.surface.size ∧ a.surface.size ≤ 3 := by decide +kernel
  have hwhole : (typeTokens .steady .never (ts ++ [.delete region] ++ more) Sheet.blank).halt =
      none := by decide +kernel
  have hplain : (typeTokens fast .never (ts ++ more) Sheet.blank).halt = none := by decide +kernel
  have hkept : a.ledger = [2] := by decide +kernel
  have hmarkup : (typeTokens fast .never (ts ++ more) Sheet.blank).final.surface.markup =
      "<b>ab</b>".toList := by decide +kernel
  obtain ⟨hscopes, hledger, hold, hnew, hmore⟩ :=
    typeTokens_region .steady .never ts region hregion hend (.inr (.inl htop.2))
  have hshow := hmore more fast .never hwhole hplain
  exact ⟨⟨hregion, hend, htop⟩, hscopes, hledger, hkept, (hold 1 hsize.1).2, hnew 3 hsize.2,
    hshow.1, hmarkup⟩

end Typist
