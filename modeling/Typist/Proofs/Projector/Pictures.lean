import Typist.Proofs.Run.Twins
import Typist.Proofs.Sheet.Walk

/-!
# What a projector has drawn

A projector attempts a picture when it is asked for one and when the links of its sheet have changed.
Attempts may fail in any pattern, and links may change while a failure is kept and nothing is drawn.
What is said here of a history of uses is told from outside, by the attempts that were made in it and by
those that failed: which picture came out last, of which sheet, and which failure comes first. The
projector knows all this without a history, by the revision that it has drawn and the failure that it
keeps.

* `Sheet.spans_eq_of_revision` — a sheet of the same revision shows the same;
* `Projector.Use` — one use of a projector, what it changes and whether it wants a picture;
* `Projector.Use.Used`, `Projector.Use.used_on` — all that a use can do;
* `Projector.shown?`, `Projector.attempts` — the picture that came out last in a history, and the
  attempts since a failure was last taken;
* `Projector.Knows` — what a projector knows of its history, kept by each use;
* `Projector.pictures_follow` — when pictures are attempted, what the last good one shows, and which
  failures are taken.
-/

namespace Typist

/-! ## Sheets of one revision -/

namespace Sheet

variable {s t : Sheet}

/-- An edit adds nodes at most, and leaves those that there are what they are. -/
theorem Edit.kind_eq (h : Edit s t) : s.size ≤ t.size ∧ ∀ n < s.size, t.kind n = s.kind n := by
  have hcreate (k : Kind) :
      s.size ≤ (s.create k).2.size ∧ ∀ n < s.size, (s.create k).2.kind n = s.kind n := by
    refine ⟨size_create s k ▸ Nat.le_succ _, fun n hn => ?_⟩
    rw [kind, slot_create_eq, if_neg (Nat.ne_of_lt hn)]
  have hremove {p c : Node} (hc : c < s.size) (n : Node) : (s.remove p c).kind n = s.kind n := by
    by_cases hmem : c ∈ (s.slot p).lastFirst
    · exact kind_remove hmem hc n
    · rw [Sheet.remove, if_neg hmem]
  cases h with
  | createGlyph value => exact hcreate _
  | createContainer tag => exact hcreate _
  | @append p c hp hc =>
    refine ⟨(size_append s p c).ge, fun n _ => ?_⟩
    change (s.append p c).kind n = s.kind n
    rw [kind, slot_append hp hc, detach]
    split
    · exact hremove hc n
    · rfl
  | @remove p c hp hc => exact ⟨(size_remove s p c).ge, fun n _ => hremove hc n⟩

/-- Edits may add nodes, and do not change what a node is. -/
theorem kind_eq_of_edits (h : Relation.ReflTransGen Edit s t) :
    s.size ≤ t.size ∧ ∀ n < s.size, t.kind n = s.kind n := by
  induction h with
  | refl => exact ⟨Nat.le_refl _, fun _ _ => rfl⟩
  | tail _ hedit ih =>
    obtain ⟨hle, hkind⟩ := hedit.kind_eq
    exact ⟨ih.1.trans hle, fun n hn => (hkind n (Nat.lt_of_lt_of_le hn ih.1)).trans (ih.2 n hn)⟩

/-- The same children of the same kinds hang below a node. -/
theorem forestBelow_of_sameLinks (hs : Linked s) (hlinks : SameLinks s t)
    (hkind : ∀ n < s.size, t.kind n = s.kind n) (depth : Nat) (n : Node) :
    t.forestBelow depth n = s.forestBelow depth n := by
  induction depth generalizing n with
  | zero => rfl
  | succ depth ih =>
    rw [forestBelow_succ, forestBelow_succ, (hlinks n).2]
    refine List.filterMap_congr fun child hchild => treeAt?_congr ?_ fun _ => ih child
    exact hkind child (lt_size_of_parent? (hs.mem_iff.1 (List.mem_reverse.1 hchild)))

/-- **A sheet of the same revision shows the same**, however it was edited in the meantime. -/
theorem spans_eq_of_revision (hs : s.Reachable) (h : Relation.ReflTransGen Edit s t)
    (hrevision : s.revision = t.revision) : t.spans = s.spans := by
  obtain ⟨hsize, hkind⟩ := kind_eq_of_edits h
  have hforest := forestBelow_of_sameLinks hs.linked ((revision_of_edits h).2 hrevision) hkind
    t.size .root
  rw [spans, spans, hs.linked.forest_eq t.size hsize, forest, hforest]

end Sheet

namespace Projector

/-! ## Attempts -/

section

variable {p : Projector}

/-- No picture is attempted as long as a failure is kept. -/
theorem redraw_of_isSome (h : p.failure.isSome = true) : p.redraw = p :=
  if_pos h

/-- An attempt that fails is counted, and its failure is kept. -/
theorem redraw_of_fails (h : p.failure = none) (hfails : p.fails (p.draws + 1) = true) :
    p.redraw = { p with draws := p.draws + 1, failure := some (p.draws + 1) } := by
  rw [redraw, h, if_neg (by simp)]
  exact if_pos hfails

/-- An attempt that succeeds is counted, and what it shows is remembered. -/
theorem redraw_of_not_fails (h : p.failure = none) (hfails : p.fails (p.draws + 1) = false) :
    p.redraw = { p with
      draws := p.draws + 1
      drawn := some p.sheet.revision
      picture := some p.render } := by
  have hnot : ¬p.fails (p.draws + 1) = true := Bool.eq_false_iff.1 hfails
  rw [redraw, if_neg (by simp [h])]
  exact if_neg hnot

end

/-! ## Uses -/

/-- One use of a projector. -/
inductive Use where
  | createGlyph (value : Char)
  | createContainer (tag : Tag)
  | append (parent child : Node)
  | remove (parent child : Node)
  | setPhase (phase : Phase)
  | redraw
  | takeFailure
  deriving DecidableEq, Repr

namespace Use

/-- What a use leaves of a projector. -/
def on (p : Projector) : Use → Projector
  | .createGlyph value => (Surface.createGlyph p value).2
  | .createContainer tag => (Surface.createContainer p tag).2
  | .append parent child => Surface.append p parent child
  | .remove parent child => Surface.remove p parent child
  | .setPhase phase => p.setPhase phase
  | .redraw => p.redraw
  | .takeFailure => p.takeFailure.2

/-- What a use leaves of a bare sheet, which knows of nodes and links only. -/
def onSheet (s : Sheet) : Use → Sheet
  | .createGlyph value => (Surface.createGlyph s value).2
  | .createContainer tag => (Surface.createContainer s tag).2
  | .append parent child => Surface.append s parent child
  | .remove parent child => Surface.remove s parent child
  | .setPhase _ | .redraw | .takeFailure => s

/-- Whether a use asks for a picture. -/
def asks : Use → Bool
  | .setPhase _ | .redraw => true
  | .createGlyph _ | .createContainer _ | .append _ _ | .remove _ _ | .takeFailure => false

/-- Whether a use links nodes, or takes them apart. -/
def links : Use → Bool
  | .append _ _ | .remove _ _ => true
  | .createGlyph _ | .createContainer _ | .setPhase _ | .redraw | .takeFailure => false

/-- Whether the nodes that a use is about are on a sheet. -/
def Fits (s : Sheet) : Use → Prop
  | .append parent child | .remove parent child => parent < s.size ∧ child < s.size
  | .createGlyph _ | .createContainer _ | .setPhase _ | .redraw | .takeFailure => True

/-- A projector after a use, as far as nothing is drawn. -/
def change (p : Projector) (u : Use) : Projector where
  sheet := u.onSheet p.sheet
  chrome := p.chrome
  size := p.size
  phase := match u with
    | .setPhase phase => phase
    | _ => p.phase
  draws := p.draws
  fails := p.fails
  drawn := p.drawn
  failure := match u with
    | .takeFailure => none
    | _ => p.failure
  picture := p.picture

/-- Whether a picture is wanted after a use. -/
def Wants (p : Projector) (u : Use) : Prop :=
  u.asks = true ∨ u.links = true ∧ p.drawn ≠ some (u.onSheet p.sheet).revision

/-- A use that wants a picture does what it does and draws. -/
theorem on_of_wants {p : Projector} {u : Use} (h : u.Wants p) : u.on p = (u.change p).redraw := by
  cases u with
  | setPhase | redraw => rfl
  | append | remove =>
    obtain h | ⟨-, h⟩ := h
    · cases h
    · exact if_neg h
  | createGlyph | createContainer | takeFailure => simp [Wants, asks, links] at h

/-- A use that wants no picture does what it does, and that is all. -/
theorem on_of_not_wants {p : Projector} {u : Use} (h : ¬u.Wants p) : u.on p = u.change p := by
  cases u with
  | setPhase | redraw => exact absurd (.inl rfl) h
  | append | remove =>
    refine if_pos (Decidable.byContradiction fun hne => h (.inr ⟨rfl, hne⟩))
  | createGlyph | createContainer | takeFailure => rfl

/-- All that a use can do: a picture that is wanted is attempted, unless a failure is kept, and the
attempt fails or not. -/
inductive Used (p : Projector) (u : Use) : Projector → Prop
  | still (h : ¬(u.Wants p ∧ p.failure = none)) : Used p u (u.change p)
  | failed (hwants : u.Wants p) (hfree : p.failure = none) (h : p.fails (p.draws + 1) = true) :
      Used p u { u.change p with draws := p.draws + 1, failure := some (p.draws + 1) }
  | drew (hwants : u.Wants p) (hfree : p.failure = none) (h : p.fails (p.draws + 1) = false) :
      Used p u { u.change p with
        draws := p.draws + 1
        drawn := some (u.change p).sheet.revision
        picture := some (u.change p).render }

/-- A use that wants a picture takes no failure. -/
theorem Wants.ne_takeFailure {p : Projector} {u : Use} (h : u.Wants p) : u ≠ .takeFailure := by
  rintro rfl
  simp [Wants, asks, links] at h

theorem change_failure {p : Projector} {u : Use} (h : u ≠ .takeFailure) :
    (u.change p).failure = p.failure := by
  cases u with
  | takeFailure => exact absurd rfl h
  | _ => rfl

/-- Every use goes in one of these ways. -/
theorem used_on (p : Projector) (u : Use) : u.Used p (u.on p) := by
  by_cases hwants : u.Wants p
  · have hfailure := change_failure (p := p) hwants.ne_takeFailure
    rw [on_of_wants hwants]
    cases hfree : p.failure with
    | some attempt =>
      have hkept : (u.change p).failure.isSome = true := by rw [hfailure, hfree]; rfl
      rw [redraw_of_isSome hkept]
      exact .still fun h => Option.some_ne_none attempt (hfree.symm.trans h.2)
    | none =>
      have hnone : (u.change p).failure = none := hfailure.trans hfree
      cases hfails : p.fails (p.draws + 1) with
      | true => exact redraw_of_fails hnone hfails ▸ .failed hwants hfree hfails
      | false => exact redraw_of_not_fails hnone hfails ▸ .drew hwants hfree hfails
  · rw [on_of_not_wants hwants]
    exact .still fun h => hwants h.1

/-- A use attempts one picture, or none. -/
theorem Used.draws {p q : Projector} {u : Use} (h : u.Used p q) :
    (u.Wants p ∧ p.failure = none) ∧ q.draws = p.draws + 1 ∨
      ¬(u.Wants p ∧ p.failure = none) ∧ q.draws = p.draws := by
  cases h with
  | still hnot => exact .inr ⟨hnot, rfl⟩
  | failed hwants hfree => exact .inl ⟨⟨hwants, hfree⟩, rfl⟩
  | drew hwants hfree => exact .inl ⟨⟨hwants, hfree⟩, rfl⟩

/-- Behind a use that links nodes or takes them apart, with no failure kept, the sheet has the revision
of the last good picture. -/
theorem Used.drawn_eq {p q : Projector} {u : Use} (h : u.Used p q) (hlinks : u.links = true)
    (hfree : q.failure = none) : q.drawn = some q.sheet.revision := by
  cases h with
  | still hnot =>
    have hu : u ≠ .takeFailure := by
      rintro rfl
      cases hlinks
    rw [change_failure hu] at hfree
    exact Decidable.byContradiction fun hne => hnot ⟨.inr ⟨hlinks, hne⟩, hfree⟩
  | failed => cases hfree
  | drew => rfl

end Use

/-! ## Histories -/

/-- A projector after a history of uses, the last one first. -/
def after (p : Projector) : List Use → Projector
  | [] => p
  | u :: us => u.on (p.after us)

/-- A bare sheet after a history of uses. -/
def bareAfter : List Use → Sheet
  | [] => .blank
  | u :: us => u.onSheet (bareAfter us)

/-- Whether the nodes that the uses of a history are about were there at the time. -/
def Fit : List Use → Prop
  | [] => True
  | u :: us => u.Fits (bareAfter us) ∧ Fit us

/-- What a picture is made of. -/
structure Shot where
  sheet : Sheet
  phase : Phase

/-- What the last picture of a history that came out was made of. -/
def shown? (p : Projector) : List Use → Option Shot
  | [] => none
  | u :: us =>
    let q := p.after (u :: us)
    if q.draws ≠ (p.after us).draws ∧ p.fails q.draws = false then some ⟨q.sheet, q.phase⟩
    else p.shown? us

/-- The numbers of the attempts since a failure was last taken, in order. -/
def attempts (p : Projector) : List Use → List Nat
  | [] => []
  | u :: us =>
    let q := p.after (u :: us)
    if u = .takeFailure then []
    else if q.draws ≠ (p.after us).draws then p.attempts us ++ [q.draws]
    else p.attempts us

/-- The first attempt that failed since a failure was last taken. -/
def parked? (p : Projector) (us : List Use) : Option Nat :=
  (p.attempts us).find? p.fails

/-- A projector does with its sheet what is done to a bare one. -/
theorem sheet_on (p : Projector) (u : Use) : (u.on p).sheet = u.onSheet p.sheet := by
  cases u with
  | createGlyph value => exact (congrArg Prod.snd (keeps_sheet.createGlyph p value)).symm
  | createContainer tag => exact (congrArg Prod.snd (keeps_sheet.createContainer p tag)).symm
  | append parent child => exact (keeps_sheet.append p parent child).symm
  | remove parent child => exact (keeps_sheet.remove p parent child).symm
  | setPhase phase => exact sheet_setPhase p phase
  | redraw => exact sheet_redraw p
  | takeFailure => rfl

/-- The sheet of a projector is what its uses make of a bare one. -/
theorem sheet_after {p : Projector} (h : p.sheet = .blank) (us : List Use) :
    (p.after us).sheet = bareAfter us := by
  induction us with
  | nil => exact h
  | cons u us ih => rw [after, sheet_on, ih, bareAfter]

/-- What a projector knows of its history: the revision of the sheet that was shown last, that
picture, and the failure that comes first. -/
structure Knows (p : Projector) (us : List Use) : Prop where
  chrome : (p.after us).chrome = p.chrome
  size : (p.after us).size = p.size
  fails : (p.after us).fails = p.fails
  drawn : (p.after us).drawn = (p.shown? us).map (·.sheet.revision)
  picture : (p.after us).picture =
    (p.shown? us).map fun shot => Screen.render p.size p.chrome shot.sheet.spans shot.phase
  failure : (p.after us).failure = p.parked? us

section

variable {p : Projector} {u : Use} {us : List Use}

/-- Whether a picture is attempted, told by what a projector knows. -/
def Attempts (p : Projector) (us : List Use) (u : Use) : Prop :=
  p.parked? us = none ∧
    (u.asks = true ∨
      u.links = true ∧
        (p.shown? us).map (·.sheet.revision) ≠ some (p.after (u :: us)).sheet.revision)

/-- What a projector knows tells whether a picture is attempted. -/
theorem Knows.wants_iff (h : Knows p us) :
    u.Wants (p.after us) ∧ (p.after us).failure = none ↔ p.Attempts us u := by
  rw [Use.Wants, ← sheet_on, h.drawn, h.failure, Attempts, after, and_comm]

/-- Without an attempt nothing else is shown. -/
theorem shown?_of_draws_eq (h : (p.after (u :: us)).draws = (p.after us).draws) :
    p.shown? (u :: us) = p.shown? us :=
  if_neg fun hne => hne.1 h

/-- No attempt is added. -/
theorem attempts_of_draws_eq (hu : u ≠ .takeFailure)
    (h : (p.after (u :: us)).draws = (p.after us).draws) :
    p.attempts (u :: us) = p.attempts us := by
  rw [attempts, if_neg hu, if_neg (not_not_intro h)]

/-- One more attempt. -/
theorem attempts_of_draws_succ (hu : u ≠ .takeFailure)
    (h : (p.after (u :: us)).draws = (p.after us).draws + 1) :
    p.attempts (u :: us) = p.attempts us ++ [(p.after us).draws + 1] := by
  have hne : (p.after (u :: us)).draws ≠ (p.after us).draws := h ▸ Nat.succ_ne_self _
  rw [attempts, if_neg hu, if_pos hne, h]

/-- If no failure is kept, one is kept exactly if the new attempt fails. -/
theorem parked?_of_draws_succ (hfree : p.parked? us = none) (hu : u ≠ .takeFailure)
    (h : (p.after (u :: us)).draws = (p.after us).draws + 1) :
    p.parked? (u :: us) =
      if p.fails ((p.after us).draws + 1) then some ((p.after us).draws + 1) else none := by
  rw [parked?] at hfree ⊢
  rw [attempts_of_draws_succ hu h, List.find?_append, hfree, Option.none_or, List.find?_singleton]

/-- **A projector knows what it has drawn**: if it does behind a history, it does behind one more use. -/
theorem Knows.use (h : Knows p us) (u : Use) : Knows p (u :: us) := by
  have hused := u.used_on (p.after us)
  generalize hq : u.on (p.after us) = q at hused
  have hafter : p.after (u :: us) = q := hq
  cases hused with
  | still hnot =>
    have hdraws : (p.after (u :: us)).draws = (p.after us).draws := by rw [hafter]; rfl
    have hshown := shown?_of_draws_eq hdraws
    refine ⟨hafter ▸ h.chrome, hafter ▸ h.size, hafter ▸ h.fails, ?_, ?_, ?_⟩
    · rw [hshown, hafter]
      exact h.drawn
    · rw [hshown, hafter]
      exact h.picture
    · rw [hafter]
      by_cases hu : u = .takeFailure
      · subst hu
        rfl
      · rw [Use.change_failure hu, h.failure, parked?, parked?, attempts_of_draws_eq hu hdraws]
  | failed hwants hfree hfails =>
    have hdraws : (p.after (u :: us)).draws = (p.after us).draws + 1 := by rw [hafter]
    rw [h.fails] at hfails
    have hshown : p.shown? (u :: us) = p.shown? us := by
      refine if_neg fun hgood => ?_
      rw [hdraws, hfails] at hgood
      exact Bool.noConfusion hgood.2
    refine ⟨hafter ▸ h.chrome, hafter ▸ h.size, hafter ▸ h.fails, ?_, ?_, ?_⟩
    · rw [hshown, hafter]
      exact h.drawn
    · rw [hshown, hafter]
      exact h.picture
    · rw [parked?_of_draws_succ (h.failure.symm.trans hfree) hwants.ne_takeFailure hdraws, hafter,
        if_pos hfails]
  | drew hwants hfree hfails =>
    have hdraws : (p.after (u :: us)).draws = (p.after us).draws + 1 := by rw [hafter]
    rw [h.fails] at hfails
    have hshown : p.shown? (u :: us) = some ⟨(u.change (p.after us)).sheet,
        (u.change (p.after us)).phase⟩ := by
      rw [shown?, if_pos ⟨hdraws ▸ Nat.succ_ne_self _, hdraws.symm ▸ hfails⟩, hafter]
    refine ⟨hafter ▸ h.chrome, hafter ▸ h.size, hafter ▸ h.fails, ?_, ?_, ?_⟩
    · rw [hshown, hafter]
      rfl
    · rw [hshown, hafter]
      change some (Screen.render (p.after us).size (p.after us).chrome _ _) = _
      rw [h.size, h.chrome]
      rfl
    · rw [parked?_of_draws_succ (h.failure.symm.trans hfree) hwants.ne_takeFailure hdraws, hafter,
        if_neg (Bool.eq_false_iff.1 hfails)]
      exact (Use.change_failure hwants.ne_takeFailure).trans hfree

/-- Behind one more use there is one more attempt, or none. -/
theorem Knows.draws_use (h : Knows p us) (u : Use) :
    p.Attempts us u ∧ (p.after (u :: us)).draws = (p.after us).draws + 1 ∨
      ¬p.Attempts us u ∧ (p.after (u :: us)).draws = (p.after us).draws :=
  propext h.wants_iff ▸ (u.used_on (p.after us)).draws

end

/-- A projector that has not been used yet. -/
def fresh (chrome : Chrome) (size : Size) (fails : Nat → Bool) : Projector :=
  { chrome, size, fails }

/-- A projector that was fresh knows its history, whatever it was used for. -/
theorem knows_fresh (chrome : Chrome) (size : Size) (fails : Nat → Bool) (us : List Use) :
    Knows (fresh chrome size fails) us := by
  induction us with
  | nil => exact ⟨rfl, rfl, rfl, rfl, rfl, rfl⟩
  | cons u us ih => exact ih.use u

/-! ## What is shown -/

/-- What fits a sheet edits it, or leaves it alone. -/
theorem Use.Fits.edits {s : Sheet} {u : Use} (h : u.Fits s) :
    Relation.ReflTransGen Sheet.Edit s (u.onSheet s) := by
  cases u with
  | createGlyph value => exact .single (.createGlyph value)
  | createContainer tag => exact .single (.createContainer tag)
  | append parent child => exact .single (.append h.1 h.2)
  | remove parent child => exact .single (.remove h.1 h.2)
  | setPhase | redraw | takeFailure => exact .refl

/-- Uses that fit leave a sheet that the operations on sheets make. -/
theorem reachable_bareAfter {us : List Use} (h : Fit us) : (bareAfter us).Reachable := by
  induction us with
  | nil => exact .blank
  | cons u us ih => exact (ih h.2).edits h.1.edits

/-- What was shown last is an earlier state of the sheet. -/
theorem edits_of_shown? {p : Projector} (hp : p.sheet = .blank) {us : List Use} (h : Fit us)
    {shot : Shot} (hshown : p.shown? us = some shot) :
    shot.sheet.Reachable ∧ Relation.ReflTransGen Sheet.Edit shot.sheet (bareAfter us) := by
  induction us with
  | nil => cases hshown
  | cons u us ih =>
    rw [shown?] at hshown
    split at hshown
    · cases hshown
      rw [sheet_after hp]
      exact ⟨reachable_bareAfter h, .refl⟩
    · obtain ⟨hreachable, hedits⟩ := ih h.2 hshown
      exact ⟨hreachable, hedits.trans h.1.edits⟩

/-- **A projector follows its sheet.** Behind any history of uses, whichever attempts fail, its sheet is
the one that a bare sheet would be; its picture is the last one that came out; and the failure that can
be taken is the first one since the last that was taken. One more use attempts a picture exactly if no
failure is kept, and the use asks for a picture, or links nodes or takes them apart and leaves another
revision than the one of the last good picture. So if a use of the latter kind leaves no failure, with
nodes that were there, the last good picture is one of what the sheet shows now. -/
theorem pictures_follow (chrome : Chrome) (size : Size) (fails : Nat → Bool) (us : List Use) :
    let p := fresh chrome size fails
    (p.after us).sheet = bareAfter us ∧
      (p.after us).picture =
        (p.shown? us).map (fun shot => Screen.render size chrome shot.sheet.spans shot.phase) ∧
      (p.after us).takeFailure.1 = (p.attempts us).find? fails ∧
      ∀ u : Use,
        (p.after (u :: us)).draws = (p.after us).draws +
          (if (p.attempts us).find? fails = none ∧
              (u.asks = true ∨ u.links = true ∧
                (p.shown? us).map (·.sheet.revision) ≠ some (p.after (u :: us)).sheet.revision)
            then 1 else 0) ∧
        (u.links = true → Fit (u :: us) → (p.attempts (u :: us)).find? fails = none →
          ∃ shot, p.shown? (u :: us) = some shot ∧
            shot.sheet.spans = (p.after (u :: us)).sheet.spans ∧
            (p.after (u :: us)).picture =
              some (Screen.render size chrome (p.after (u :: us)).sheet.spans shot.phase)) := by
  intro p
  have hknows := knows_fresh chrome size fails
  refine ⟨sheet_after rfl us, (hknows us).picture, (hknows us).failure, fun u => ⟨?_, ?_⟩⟩
  · obtain ⟨hattempts, hdraws⟩ | ⟨hnot, hdraws⟩ := (hknows us).draws_use u
    · rw [hdraws]
      exact congrArg ((p.after us).draws + ·) (if_pos hattempts).symm
    · rw [hdraws]
      exact (Nat.add_zero _).symm.trans (congrArg ((p.after us).draws + ·) (if_neg hnot).symm)
  · intro hlinks hfit hfree
    have hdrawn : (p.after (u :: us)).drawn = some (p.after (u :: us)).sheet.revision :=
      (u.used_on (p.after us)).drawn_eq hlinks ((hknows (u :: us)).failure.trans hfree)
    rw [(hknows (u :: us)).drawn] at hdrawn
    obtain ⟨shot, hshown, hrevision⟩ := Option.map_eq_some_iff.1 hdrawn
    obtain ⟨hreachable, hedits⟩ := edits_of_shown? rfl hfit hshown
    -- the sheet may have been edited since, but its links are the same
    have hspans : shot.sheet.spans = (p.after (u :: us)).sheet.spans := by
      rw [sheet_after rfl] at hrevision ⊢
      exact (Sheet.spans_eq_of_revision hreachable hedits hrevision).symm
    refine ⟨shot, hshown, hspans, ?_⟩
    rw [(hknows (u :: us)).picture, hshown, ← hspans]
    rfl

/-- The second attempt fails, nodes are hung up while that failure is kept, and it is taken. The next use
takes a node off where it does not hang, which changes nothing; but the picture is made up for. -/
theorem pictures_follow_made_up :
    let fails (n : Nat) : Bool := n = 2
    let chrome : Chrome := ⟨none, 1, 1, ['_'], .darkGray⟩
    let p := fresh chrome ⟨9, 2⟩ fails
    let us : List Use := [.takeFailure, .setPhase .waiting, .append 0 3, .createGlyph 'c', .append 0 2,
      .createGlyph 'b', .append 0 1, .createGlyph 'a']
    Fit (.remove 1 2 :: us) ∧ (p.attempts us.tail).find? fails = some 2 ∧
      (p.shown? us).map (·.sheet.text) = some ['a'] ∧ (p.after us).draws = 2 ∧
      (p.after (.remove 1 2 :: us)).draws = 3 ∧
      ∃ shot, p.shown? (.remove 1 2 :: us) = some shot ∧
        (p.after (.remove 1 2 :: us)).picture =
          some (Screen.render ⟨9, 2⟩ chrome (p.after (.remove 1 2 :: us)).sheet.spans shot.phase) := by
  intro fails chrome p us
  have hfit : Fit (.remove 1 2 :: us) :=
    ⟨⟨by decide, by decide⟩, trivial, trivial, ⟨by decide, by decide⟩, trivial,
      ⟨by decide, by decide⟩, trivial, ⟨by decide, by decide⟩, trivial, trivial⟩
  obtain ⟨shot, hshown, -, hpicture⟩ :=
    ((pictures_follow chrome ⟨9, 2⟩ fails us).2.2.2 (.remove 1 2)).2 rfl hfit (by decide)
  exact ⟨hfit, by decide, by decide, by decide, by decide, shot, hshown, hpicture⟩

end Projector

end Typist
