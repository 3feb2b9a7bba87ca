import Mathlib.Data.List.Chain
import Typist.Proofs.Sheet.Walk

/-!
# Climbing to the root

Whether a node hangs from the root is found out by climbing from parent to parent, and nobody keeps
count of the nodes on the way. Whatever a sheet was used for, an answer that the climb gives is right. It
gives none in one case: a node may be hung below itself, and where the way up runs into such a circle
before it comes to the root, the climb goes on for ever.

* `Sheet.Climbs`, `Sheet.Circling` — one step of a climb, and the climbs that run into a circle;
* `Sheet.Reached` — the nodes that one comes to from the root;
* `Sheet.Linked.attached?_eq_climb?` — a climb that has not ended after as many steps as there are nodes
  does not end;
* `Sheet.Edit.circling_cases` — a circle comes of hanging a node below itself, and of nothing else;
* `Sheet.climb?_of_edits` — what a climb answers, when it does not, and what must have happened then;
* `Sheet.climb?_self` — a node that hangs from itself.
-/

namespace Typist.Sheet

open Relation (ReflTransGen TransGen)

variable {s t : Sheet} {n m p c : Node}

/-- One step of a climb: from a node to its parent. The climb ends at the root, even if that hangs from
something. -/
def Climbs (s : Sheet) (n p : Node) : Prop :=
  n ≠ .root ∧ s.parent? n = some p

/-- A climb comes to a node, and then to that node again. -/
def Circling (s : Sheet) (n : Node) : Prop :=
  ∃ m, ReflTransGen s.Climbs n m ∧ TransGen s.Climbs m m

/-- A node that one comes to from the root, from one child to the next. -/
def Reached (s : Sheet) (n : Node) : Prop :=
  ReflTransGen (fun p c => c ∈ s.children p) .root n

/-! ## One climb -/

theorem climb?_root : s.climb? .root = some true := by
  rw [climb?, if_pos rfl]

theorem Climbs.climb?_eq (h : s.Climbs n p) : s.climb? n = s.climb? p := by
  rw [climb?, if_neg h.1, h.2]

/-- A climb that comes to the root answers so. -/
theorem climb?_eq_some_true (h : ReflTransGen s.Climbs n .root) : s.climb? n = some true := by
  induction h using ReflTransGen.head_induction_on with
  | refl => exact climb?_root
  | head hstep _ ih => rw [hstep.climb?_eq, ih]

/-- A climb answers so only if it comes to the root. -/
theorem climbs_of_climb? {b : Bool} (h : s.climb? n = some b) (hb : b = true) :
    ReflTransGen s.Climbs n .root := by
  refine climb?.partial_correctness s (fun n b => b = true → ReflTransGen s.Climbs n .root) ?_ n b h hb
  intro climb ih n b hn hb
  split at hn
  · rename_i hroot
    rw [hroot]
  · rename_i hroot
    split at hn
    · rename_i p hp
      exact .head ⟨hroot, hp⟩ (ih p b hn hb)
    · rw [← Option.some.inj hn] at hb
      cases hb

/-- A climb that runs into a circle takes a step, and runs into it from there too. -/
theorem Circling.exists_step (h : s.Circling n) : ∃ p, s.Climbs n p ∧ s.Circling p := by
  obtain ⟨m, hup, hround⟩ := h
  rcases ReflTransGen.cases_head_iff.1 hup with rfl | ⟨p, hstep, hrest⟩
  · obtain ⟨p, hstep, hrest⟩ := TransGen.head'_iff.1 hround
    exact ⟨p, hstep, n, hrest, hround⟩
  · exact ⟨p, hstep, m, hrest, hround⟩

/-- A climb that runs into a circle has no answer. -/
theorem Circling.climb?_eq_none (h : s.Circling n) : s.climb? n = none := by
  cases hb : s.climb? n with
  | none => rfl
  | some b =>
    refine absurd h (climb?.partial_correctness s (fun n _ => ¬s.Circling n) ?_ n b hb)
    intro climb ih n b hn hcircle
    obtain ⟨p, hstep, hcircle'⟩ := hcircle.exists_step
    rw [if_neg hstep.1, hstep.2] at hn
    exact ih p b hn hcircle'

/-! ## As many steps as there are nodes -/

theorem climb?_of_reachesRoot? {steps : Nat} {b : Bool} (h : s.reachesRoot? steps n = some b) :
    s.climb? n = some b := by
  induction steps generalizing n with
  | zero => cases h
  | succ steps ih =>
    rw [climb?]
    rw [reachesRoot?] at h
    split at h
    · rename_i hroot
      rw [if_pos hroot, h]
    · rename_i hroot
      rw [if_neg hroot]
      split at h
      · exact ih h
      · exact h

/-- A climb that has not ended after some steps has taken them. -/
theorem exists_chain_of_reachesRoot? {steps : Nat} (h : s.reachesRoot? steps n = none) :
    ∃ ns : List Node, ns.length = steps ∧ (n :: ns).IsChain s.Climbs := by
  induction steps generalizing n with
  | zero => exact ⟨[], rfl, .singleton n⟩
  | succ steps ih =>
    rw [reachesRoot?] at h
    split at h
    · cases h
    · rename_i hroot
      split at h
      · rename_i p hp
        obtain ⟨ns, hlength, hchain⟩ := ih h
        exact ⟨p :: ns, congrArg (· + 1) hlength, List.isChain_cons_cons.2 ⟨⟨hroot, hp⟩, hchain⟩⟩
      · cases h

/-- What a climb comes to is in use. -/
theorem Linked.lt_size_of_climbs (hs : Linked s) (h : TransGen s.Climbs n m) : m < s.size := by
  obtain ⟨c, -, -, hp⟩ := TransGen.tail'_iff.1 h
  exact lt_size_of_mem (hs.mem_iff.2 hp)

/-- A climb through more nodes than there are runs into a circle. -/
theorem Linked.circling_of_chain (hs : Linked s) {ns : List Node}
    (hchain : (n :: ns).IsChain s.Climbs) (hlength : s.size < ns.length) : s.Circling n := by
  have hpairs : (n :: ns).Pairwise (TransGen s.Climbs) :=
    (hchain.imp fun _ _ => TransGen.single).pairwise
  obtain ⟨hup, hpairs⟩ := List.pairwise_cons.1 hpairs
  have hrepeats : ¬ns.Nodup := by
    intro hnodup
    have hle := length_le_size hnodup fun m hm => hs.lt_size_of_climbs (hup m hm)
    omega
  rw [List.nodup_iff_sublist, not_forall_not] at hrepeats
  obtain ⟨m, htwice⟩ := hrepeats
  have hround : TransGen s.Climbs m m := List.pairwise_pair.1 (hpairs.sublist htwice)
  exact ⟨m, (hup m (htwice.subset List.mem_cons_self)).to_reflTransGen, hround⟩

/-- In as many steps as there are nodes a climb has ended, if it ends at all. -/
theorem Linked.attached?_eq_climb? (hs : Linked s) (n : Node) : s.attached? n = s.climb? n := by
  cases h : s.attached? n with
  | some b => rw [climb?_of_reachesRoot? h]
  | none =>
    obtain ⟨ns, hlength, hchain⟩ := exists_chain_of_reachesRoot? h
    exact (hs.circling_of_chain hchain (by omega)).climb?_eq_none.symm

theorem Linked.climb?_eq_none_iff (hs : Linked s) : s.climb? n = none ↔ s.Circling n := by
  refine ⟨fun h => ?_, Circling.climb?_eq_none⟩
  rw [← hs.attached?_eq_climb?] at h
  obtain ⟨ns, hlength, hchain⟩ := exists_chain_of_reachesRoot? h
  exact hs.circling_of_chain hchain (by omega)

/-- The way up to the root is the way down from it. -/
theorem Linked.reached_iff (hs : Linked s) : s.Reached n ↔ ReflTransGen s.Climbs n .root := by
  have hlink (p c : Node) : c ∈ s.children p ↔ s.parent? c = some p :=
    List.mem_reverse.trans hs.mem_iff
  constructor
  · intro h
    induction h with
    | refl => exact .refl
    | @tail p c _ hchild ih =>
      by_cases hroot : c = .root
      · rw [hroot]
      · exact .head ⟨hroot, (hlink p c).1 hchild⟩ ih
  · intro h
    induction h using ReflTransGen.head_induction_on with
    | refl => exact .refl
    | @head n p hstep _ ih => exact ih.tail ((hlink p n).2 hstep.2)

theorem Linked.climb?_eq_some_true_iff (hs : Linked s) : s.climb? n = some true ↔ s.Reached n := by
  rw [hs.reached_iff]
  exact ⟨fun h => climbs_of_climb? h rfl, climb?_eq_some_true⟩

/-! ## Where circles come from -/

theorem Circling.mono (h : s.Circling n) (hsub : ∀ n p, s.Climbs n p → t.Climbs n p) :
    t.Circling n := by
  obtain ⟨m, hup, hround⟩ := h
  exact ⟨m, ReflTransGen.mono hsub _ _ hup, TransGen.mono hsub _ _ hround⟩

theorem Linked.climbs_of_remove (hs : Linked s) (h : (s.remove p c).Climbs n m) : s.Climbs n m := by
  by_cases hmem : c ∈ (s.slot p).lastFirst
  · obtain ⟨hroot, hm⟩ := h
    rw [parent?_remove hmem (lt_size_of_parent? (hs.mem_iff.1 hmem))] at hm
    split at hm
    · cases hm
    · exact ⟨hroot, hm⟩
  · rwa [Sheet.remove, if_neg hmem] at h

/-- Hanging up a node makes one new step, from the node to the one that it is hung from. -/
theorem Linked.climbs_of_append (hs : Linked s) (hp : p < s.size) (hc : c < s.size)
    (h : (s.append p c).Climbs n m) : (n = c ∧ m = p) ∨ s.Climbs n m := by
  obtain ⟨hroot, hm⟩ := h
  rw [parent?, slot_append hp hc] at hm
  by_cases hn : n = c
  · rw [if_pos hn] at hm
    exact .inl ⟨hn, (Option.some.inj hm).symm⟩
  · rw [if_neg hn] at hm
    refine .inr ?_
    rw [Sheet.detach] at hm
    split at hm
    · exact hs.climbs_of_remove ⟨hroot, hm⟩
    · exact ⟨hroot, hm⟩

/-- A way up with a new step on it goes to the node that was hung up, and on from where it hangs now. -/
theorem Linked.transGen_of_append (hs : Linked s) (hp : p < s.size) (hc : c < s.size)
    (h : TransGen (s.append p c).Climbs n m) :
    TransGen s.Climbs n m ∨ ReflTransGen s.Climbs n c ∧ ReflTransGen s.Climbs p m := by
  induction h with
  | single hstep =>
    rcases hs.climbs_of_append hp hc hstep with ⟨rfl, rfl⟩ | hstep
    · exact .inr ⟨.refl, .refl⟩
    · exact .inl (.single hstep)
  | tail _ hstep ih =>
    rcases hs.climbs_of_append hp hc hstep with ⟨rfl, rfl⟩ | hstep
    · rcases ih with hup | ⟨hup, -⟩
      · exact .inr ⟨hup.to_reflTransGen, .refl⟩
      · exact .inr ⟨hup, .refl⟩
    · rcases ih with hup | ⟨hup, hfrom⟩
      · exact .inl (hup.tail hstep)
      · exact .inr ⟨hup, hfrom.tail hstep⟩

/-- A use of the operations makes a first circle only by hanging a node from itself or from something
below it. -/
theorem Edit.circling_cases (h : Edit s t) (hs : Linked s) (hcircle : t.Circling n) :
    (∃ m, s.Circling m) ∨
      ∃ p c, t = s.append p c ∧ p < s.size ∧ c < s.size ∧ ReflTransGen s.Climbs p c := by
  cases h with
  | createGlyph | createContainer =>
    refine .inl ⟨n, hcircle.mono fun n p hstep => ⟨hstep.1, ?_⟩⟩
    rw [← (sameLinks_create s _ n).1]
    exact hstep.2
  | remove => exact .inl ⟨n, hcircle.mono fun n p hstep => hs.climbs_of_remove hstep⟩
  | @append p c hp hc =>
    obtain ⟨m, -, hround⟩ := hcircle
    rcases hs.transGen_of_append hp hc hround with hround | ⟨hup, hfrom⟩
    · exact .inl ⟨m, m, .refl, hround⟩
    · exact .inr ⟨p, c, rfl, hp, hc, hfrom.trans hup⟩

/-- When a sheet was made, a node was hung from itself or from something below it. -/
def HungBelowItself (s : Sheet) : Prop :=
  ∃ (t : Sheet) (p c : Node), ReflTransGen Edit blank t ∧ p < t.size ∧ c < t.size ∧
    ReflTransGen t.Climbs p c ∧ ReflTransGen Edit (t.append p c) s

theorem hungBelowItself_of_circling (hs : ReflTransGen Edit blank s) (hcircle : s.Circling n) :
    s.HungBelowItself := by
  induction hs generalizing n with
  | refl =>
    obtain ⟨p, ⟨hroot, hp⟩, -⟩ := hcircle.exists_step
    exact absurd (Nat.lt_one_iff.1 (lt_size_of_parent? hp)) hroot
  | @tail s t hmade hedit ih =>
    rcases hedit.circling_cases (Reachable.blank.edits hmade).linked hcircle with
      ⟨m, hm⟩ | ⟨p, c, rfl, hp, hc, hup⟩
    · obtain ⟨u, p, c, hu, hp, hc, hup, hrest⟩ := ih hm
      exact ⟨u, p, c, hu, hp, hc, hup, hrest.tail hedit⟩
    · exact ⟨s, p, c, hmade, hp, hc, hup, .refl⟩

/-! ## Any climb on any sheet -/

/-- **A climb tells whether a node is reached from the root, unless it runs into a circle.** Whatever the
operations on a sheet were used for, the climb from a node gets to the root exactly if the node is
reached from there, and it goes on for ever exactly if the parents on the way up run in a circle; then
some node was hung below itself at some time. -/
theorem climb?_of_edits (hs : ReflTransGen Edit blank s) (n : Node) :
    (s.climb? n = some true ↔ s.Reached n) ∧ (s.climb? n = none ↔ s.Circling n) ∧
      (s.climb? n = none → s.HungBelowItself) := by
  have hlinked : Linked s := (Reachable.blank.edits hs).linked
  refine ⟨hlinked.climb?_eq_some_true_iff, hlinked.climb?_eq_none_iff, fun hnone => ?_⟩
  exact hungBelowItself_of_circling hs (hlinked.climb?_eq_none_iff.1 hnone)

/-- A glyph hangs from a container that hangs from itself; the root hangs from the container too, and is
no less the root. -/
theorem climb?_of_edits_circles :
    let circle := (blank.create (.container .bold)).2.append 1 1
    let s := ((circle.create (.glyph 'x')).2.append 1 2).append 1 0
    ReflTransGen Edit blank s ∧ s.Circling 2 ∧ s.climb? .root = some true ∧
      (s.climb? 2 = some true ↔ s.Reached 2) ∧ (s.climb? 2 = none ↔ s.Circling 2) ∧
      (s.climb? 2 = none → s.HungBelowItself) := by
  intro circle s
  have hcircle : ReflTransGen Edit blank circle :=
    (ReflTransGen.single (.createContainer .bold)).tail (.append (by decide) (by decide))
  have hs : ReflTransGen Edit blank s :=
    ((hcircle.tail (.createGlyph 'x')).tail (.append (by decide) (by decide))).tail
      (.append (by decide) (by decide))
  have hup : s.Climbs 2 1 := ⟨by decide, by decide⟩
  have hround : s.Climbs 1 1 := ⟨by decide, by decide⟩
  exact ⟨hs, ⟨1, .single hup, .single hround⟩, climb?_root, climb?_of_edits hs 2⟩

/-- A node that hangs from itself is not reached from the root, and the climb from it does not say so. -/
theorem climb?_self :
    let s := (blank.create (.container .bold)).2.append 1 1
    ReflTransGen Edit blank s ∧ 1 < s.size ∧ ¬s.Reached 1 ∧ s.climb? 1 = none := by
  intro s
  have hs : ReflTransGen Edit blank s :=
    (ReflTransGen.single (.createContainer .bold)).tail (.append (by decide) (by decide))
  have hround : s.Climbs 1 1 := ⟨by decide, by decide⟩
  have hnone : s.climb? 1 = none := Circling.climb?_eq_none ⟨1, .refl, .single hround⟩
  refine ⟨hs, by decide, fun hreached => ?_, hnone⟩
  rw [(Reachable.blank.edits hs).linked.climb?_eq_some_true_iff.2 hreached] at hnone
  cases hnone

end Typist.Sheet
