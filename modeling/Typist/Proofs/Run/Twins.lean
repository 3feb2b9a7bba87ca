import Typist.Proofs.Run.Cancellation
import Typist.Projector

/-!
# What a run does on one surface it does on another

A run asks its surface for parents, numbers of children and tags, and for nothing else. A surface
that keeps a sheet and answers from it is therefore as good as the sheet, whatever else it does with
what it is told. And a run asks nothing at all of its clock and of its draws: they say how long it
waits, and not what it does then.

* `Keeps` — a surface keeps a sheet; `keeps_self` and `Projector.keeps_sheet`, that sheets and
  projectors do;
* `typeTokens_onSheet` — a run on such a surface is the run on its sheet;
* `Run.timeless` — a run without what has to do with time;
* `timeless_final` — at any two paces, however they are watched, two runs that come to their ends have
  done the same.
-/

namespace Typist

/-! ## Surfaces that keep a sheet -/

/-- A surface from which a sheet can be read: what is done to the surface is done to the sheet, and
what is asked of the surface the sheet answers. -/
structure Keeps {σ : Type} [Surface σ] (sheet : σ → Sheet) : Prop where
  createGlyph : ∀ s value,
    Surface.createGlyph (sheet s) value =
      ((Surface.createGlyph s value).1, sheet (Surface.createGlyph s value).2)
  createContainer : ∀ s tag,
    Surface.createContainer (sheet s) tag =
      ((Surface.createContainer s tag).1, sheet (Surface.createContainer s tag).2)
  append : ∀ s parent child,
    Surface.append (sheet s) parent child = sheet (Surface.append s parent child)
  remove : ∀ s parent child,
    Surface.remove (sheet s) parent child = sheet (Surface.remove s parent child)
  parent? : ∀ s node, Surface.parent? (sheet s) node = Surface.parent? s node
  childCount : ∀ s node, Surface.childCount (sheet s) node = Surface.childCount s node
  tag? : ∀ s node, Surface.tag? (sheet s) node = Surface.tag? s node

/-- A sheet keeps itself. -/
theorem keeps_self : Keeps fun s : Sheet => s :=
  ⟨fun _ _ => rfl, fun _ _ => rfl, fun _ _ _ => rfl, fun _ _ _ => rfl, fun _ _ => rfl,
    fun _ _ => rfl, fun _ _ => rfl⟩

namespace Projector

/-- A picture changes nothing of the sheet. -/
@[simp] theorem sheet_redraw (p : Projector) : p.redraw.sheet = p.sheet := by
  unfold redraw
  split
  · rfl
  · dsimp only
    split <;> rfl

@[simp] theorem sheet_redrawIfChanged (p : Projector) : p.redrawIfChanged.sheet = p.sheet := by
  unfold redrawIfChanged
  split
  · rfl
  · exact sheet_redraw p

@[simp] theorem sheet_setPhase (p : Projector) (phase : Phase) :
    (p.setPhase phase).sheet = p.sheet :=
  sheet_redraw _

/-- Whichever of its pictures fail, a projector keeps its sheet. -/
theorem keeps_sheet : Keeps sheet where
  createGlyph _ _ := rfl
  createContainer _ _ := rfl
  append p parent child :=
    (sheet_redrawIfChanged { p with sheet := p.sheet.append parent child }).symm
  remove p parent child :=
    (sheet_redrawIfChanged { p with sheet := p.sheet.remove parent child }).symm
  parent? _ _ := rfl
  childCount _ _ := rfl
  tag? _ _ := rfl

end Projector

/-- What an act does to a surface it does to the sheet. -/
theorem Keeps.onto {σ : Type} [Surface σ] {sheet : σ → Sheet} (h : Keeps sheet) (s : σ)
    (act : Act) : sheet (act.onto s) = act.onto (sheet s) := by
  cases act with
  | glyph node value => exact (congrArg Prod.snd (h.createGlyph s value)).symm
  | container node tag => exact (congrArg Prod.snd (h.createContainer s tag)).symm
  | append parent child => exact (h.append s parent child).symm
  | remove parent child => exact (h.remove s parent child).symm
  | wait delay => rfl

/-! ## A run on the sheet of its surface -/

namespace Run

variable {σ : Type}

/-- A run with the sheet of its surface in place of the surface. -/
def onSheet (sheet : σ → Sheet) (r : Run σ) : Run Sheet where
  surface := sheet r.surface
  scopes := r.scopes
  ledger := r.ledger
  generator := r.generator
  cancel := r.cancel
  summary := r.summary
  history := r.history
  notes := r.notes

end Run

/-- A step with the sheet of its surface in place of the surface. -/
def Step.onSheet {σ : Type} (sheet : σ → Sheet) : Step σ → Step Sheet
  | .goes r => .goes (r.onSheet sheet)
  | .ends halt r => .ends halt (r.onSheet sheet)

/-- An outcome with the sheet of its surface in place of the surface. -/
def Outcome.onSheet {σ : Type} (sheet : σ → Sheet) (o : Outcome σ) : Outcome Sheet :=
  ⟨o.halt, o.final.onSheet sheet⟩

namespace Run

section

variable {σ : Type} [Surface σ] {sheet : σ → Sheet} (h : Keeps sheet)
include h

/-- Taking off a node does to the sheet what it would do on the sheet alone. -/
theorem onSheet_remove (r : Run σ) (parent child : Node) :
    (r.remove parent child).onSheet sheet = (r.onSheet sheet).remove parent child :=
  congrArg (fun s => { (r.onSheet sheet).remove parent child with surface := s })
    (h.remove r.surface parent child).symm

/-- Hanging up a node does to the sheet what it would do on the sheet alone. -/
theorem onSheet_append (r : Run σ) (parent child : Node) :
    (r.append parent child).onSheet sheet = (r.onSheet sheet).append parent child :=
  congrArg (fun s => { (r.onSheet sheet).append parent child with surface := s })
    (h.append r.surface parent child).symm

/-- Making a glyph does so, and gives the same handle. -/
theorem onSheet_createGlyph (r : Run σ) (value : Char) :
    (r.onSheet sheet).createGlyph value =
      ((r.createGlyph value).1, (r.createGlyph value).2.onSheet sheet) := by
  have hmade : Surface.createGlyph (r.onSheet sheet).surface value = _ :=
    h.createGlyph r.surface value
  simp only [createGlyph, hmade]
  rfl

/-- Making a container does so, and gives the same handle. -/
theorem onSheet_createContainer (r : Run σ) (tag : Tag) :
    (r.onSheet sheet).createContainer tag =
      ((r.createContainer tag).1, (r.createContainer tag).2.onSheet sheet) := by
  have hmade : Surface.createContainer (r.onSheet sheet).surface tag = _ :=
    h.createContainer r.surface tag
  simp only [createContainer, hmade]
  rfl

/-- Taking off what is empty on the way up does the same to the sheet. -/
theorem onSheet_prune (steps : Nat) (node : Node) (r : Run σ) :
    (prune steps node r).onSheet sheet = prune steps node (r.onSheet sheet) := by
  induction steps generalizing node r with
  | zero => rfl
  | succ steps ih =>
    have hcount : Surface.childCount (r.onSheet sheet).surface node = _ :=
      h.childCount r.surface node
    have hparent : Surface.parent? (r.onSheet sheet).surface node = _ := h.parent? r.surface node
    simp only [prune, hcount, hparent]
    split
    · rfl
    · cases Surface.parent? r.surface node with
      | none => rfl
      | some parent =>
        have hoff := onSheet_remove h r parent node
        exact (ih parent (r.remove parent node)).trans (congrArg (prune steps parent) hoff)

/-- Taking off a glyph does the same to the sheet. -/
theorem onSheet_takeOff (node : Node) (r : Run σ) :
    (r.takeOff node).onSheet sheet = (r.onSheet sheet).takeOff node := by
  have hparent : Surface.parent? (r.onSheet sheet).surface node = _ := h.parent? r.surface node
  simp only [takeOff, hparent]
  cases Surface.parent? r.surface node with
  | none => rfl
  | some parent =>
    have hoff := onSheet_remove h r parent node
    exact (onSheet_prune h _ _ _).trans (congrArg (prune _ parent) hoff)

/-- Taking off scopes that were closed does the same to the sheet. -/
theorem onSheet_foldl_removeIfEmpty (nodes : List Node) (r : Run σ) :
    (nodes.foldl removeIfEmpty r).onSheet sheet = nodes.foldl removeIfEmpty (r.onSheet sheet) := by
  induction nodes generalizing r with
  | nil => rfl
  | cons node nodes ih =>
    have hone : (r.removeIfEmpty node).onSheet sheet = (r.onSheet sheet).removeIfEmpty node := by
      have hcount : Surface.childCount (r.onSheet sheet).surface node = _ :=
        h.childCount r.surface node
      have hparent : Surface.parent? (r.onSheet sheet).surface node = _ := h.parent? r.surface node
      simp only [removeIfEmpty, hcount, hparent]
      split
      · rfl
      · cases Surface.parent? r.surface node with
        | none => rfl
        | some parent => exact onSheet_remove h r parent node
    rw [List.foldl_cons, ih, hone, List.foldl_cons]

/-- Which scopes a close tag closes is read off the sheet. -/
theorem closing?_sheet (s : σ) (tag : Tag) (scopes : List Node) :
    closing? (sheet s) tag scopes = closing? s tag scopes := by
  induction scopes with
  | nil => rfl
  | cons node scopes ih => rw [closing?, closing?, h.tag?, ih]

/-- Closing scopes does to the sheet what it would do on the sheet alone. -/
theorem onSheet_closeScope (tag : Tag) (r : Run σ) :
    (r.closeScope tag).onSheet sheet = (r.onSheet sheet).closeScope tag := by
  have hclosing : closing? (r.onSheet sheet).surface tag (r.onSheet sheet).scopes = _ :=
    closing?_sheet h r.surface tag r.scopes
  simp only [closeScope, hclosing]
  cases closing? r.surface tag r.scopes with
  | none => rfl
  | some found => exact onSheet_foldl_removeIfEmpty h _ _

/-- A stroke does to the sheet what it does to the surface. -/
theorem onSheet_made (x : Stroke) (r : Run σ) :
    (r.made x).onSheet sheet = (r.onSheet sheet).made x := by
  cases x with
  | type value =>
    simp only [made, onSheet_createGlyph h, ← onSheet_append h]
    rfl
  | opening tag =>
    simp only [made, openScope, onSheet_createContainer h, ← onSheet_append h]
    rfl
  | closing tag => exact onSheet_closeScope h tag r
  | pause | enter | hold | turn => rfl
  | erase =>
    have hledger : (r.onSheet sheet).ledger = r.ledger := rfl
    simp only [made, hledger]
    cases r.ledger with
    | nil => rfl
    | cons node ledger =>
      have hoff := onSheet_takeOff h node { r with ledger }
      exact congrArg (count · fun s => { s with erased := s.erased + 1 }) hoff

omit [Surface σ] h in
/-- A wait is the same on the sheet alone. -/
theorem onSheet_suspendDrawn (drawn : Option Delay × Generator) (r : Run σ) :
    (r.suspendDrawn drawn).onSheet sheet = (r.onSheet sheet).suspendDrawn drawn := by
  obtain ⟨delay?, generator⟩ := drawn
  cases delay? with
  | none => rfl
  | some delay =>
    have hcancel : (r.onSheet sheet).cancel = r.cancel := rfl
    simp only [suspendDrawn, suspend_eq, hcancel]
    split
    · rfl
    · split <;> rfl

/-- A run on a surface that keeps a sheet strikes as one on the sheet does. -/
theorem onSheet_strike (pace : Pace) (x : Stroke) (r : Run σ) :
    (r.strike pace x).onSheet sheet = (r.onSheet sheet).strike pace x := by
  have hwait : (r.onSheet sheet).wait? pace x = r.wait? pace x := by cases x <;> rfl
  rw [strike_eq, strike_eq, hwait, ← onSheet_made h]
  cases r.wait? pace x with
  | none => rfl
  | some drawn => exact onSheet_suspendDrawn drawn (r.made x)

/-- Over any strokes it does what one on the sheet does. -/
theorem onSheet_strikeAll (pace : Pace) (xs : List Stroke) (r : Run σ) :
    (r.strikeAll pace xs).onSheet sheet = (r.onSheet sheet).strikeAll pace xs := by
  induction xs generalizing r with
  | nil => rfl
  | cons x xs ih =>
    rw [strikeAll_cons, strikeAll_cons, ← onSheet_strike h]
    cases r.strike pace x with
    | goes q => exact ih q
    | ends halt q => rfl

end

end Run

/-- **A run on a surface that keeps a sheet is the run on the sheet**: it ends for the same reason if
it ends early, and has done, counted and remarked the same. -/
theorem typeTokens_onSheet {σ : Type} [Surface σ] {sheet : σ → Sheet} (h : Keeps sheet) (pace : Pace)
    (cancel : Cancel) (ts : List Token) (s : σ) :
    typeTokens pace cancel ts (sheet s) = (typeTokens pace cancel ts s).onSheet sheet := by
  have hstep := Run.onSheet_strikeAll h pace (script ts) ((Run.begin pace .never s).watched cancel)
  rw [typeTokens_eq, typeTokens_eq]
  refine (congrArg Outcome.ofStep hstep).symm.trans ?_
  cases ((Run.begin pace .never s).watched cancel).strikeAll pace (script ts) <;> rfl

/-! ## A run without its time -/

/-- An act, however long it waits. -/
def Act.timeless : Act → Act
  | .wait _ => .wait .zero
  | act => act

/-- The counts, the delays that were asked for left aside. -/
def Summary.counts (s : Summary) : Summary :=
  { s with requested := .zero }

namespace Run

/-- A run without what has to do with time: how long it waited, when it is to be cancelled, and where
its draws come from; that is `g`. -/
def timeless {σ : Type} (g : Generator) (r : Run σ) : Run σ where
  surface := r.surface
  scopes := r.scopes
  ledger := r.ledger
  generator := g
  summary := r.summary.counts
  history := r.history.map Act.timeless
  notes := r.notes

variable {σ : Type} [Surface σ] {g : Generator}

/-- The time has no say in what is taken off on the way up. -/
theorem timeless_prune (steps : Nat) (node : Node) (r : Run σ) :
    (prune steps node r).timeless g = prune steps node (r.timeless g) := by
  induction steps generalizing node r with
  | zero => rfl
  | succ steps ih =>
    have hsurface : (r.timeless g).surface = r.surface := rfl
    simp only [prune, hsurface]
    split
    · rfl
    · cases Surface.parent? r.surface node with
      | none => rfl
      | some parent => exact ih parent (r.remove parent node)

/-- The time has no say in what an erasure takes off. -/
theorem timeless_takeOff (node : Node) (r : Run σ) :
    (r.takeOff node).timeless g = (r.timeless g).takeOff node := by
  have hsurface : (r.timeless g).surface = r.surface := rfl
  have hlength : (r.timeless g).history.length = r.history.length := List.length_map _
  simp only [takeOff, hsurface, hlength]
  cases Surface.parent? r.surface node with
  | none => rfl
  | some parent => exact timeless_prune _ _ _

/-- The time has no say in which scopes are taken off when they are closed. -/
theorem timeless_foldl_removeIfEmpty (nodes : List Node) (r : Run σ) :
    (nodes.foldl removeIfEmpty r).timeless g = nodes.foldl removeIfEmpty (r.timeless g) := by
  induction nodes generalizing r with
  | nil => rfl
  | cons node nodes ih =>
    have hone : (r.removeIfEmpty node).timeless g = (r.timeless g).removeIfEmpty node := by
      have hsurface : (r.timeless g).surface = r.surface := rfl
      simp only [removeIfEmpty, hsurface]
      split
      · rfl
      · cases Surface.parent? r.surface node <;> rfl
    rw [List.foldl_cons, ih, hone, List.foldl_cons]

/-- What a stroke does has nothing to do with time. -/
theorem timeless_made (x : Stroke) (r : Run σ) : (r.made x).timeless g = (r.timeless g).made x := by
  cases x with
  | type | opening | pause | enter | hold | turn => rfl
  | closing tag =>
    have hsurface : (r.timeless g).surface = r.surface := rfl
    have hscopes : (r.timeless g).scopes = r.scopes := rfl
    simp only [made, closeScope, hsurface, hscopes]
    cases closing? r.surface tag r.scopes with
    | none => rfl
    | some found => exact timeless_foldl_removeIfEmpty _ _
  | erase =>
    have hledger : (r.timeless g).ledger = r.ledger := rfl
    simp only [made, hledger]
    cases r.ledger with
    | nil => rfl
    | cons node ledger =>
      have hoff := timeless_takeOff (g := g) node { r with ledger }
      exact congrArg (count · fun s => { s with erased := s.erased + 1 }) hoff

omit [Surface σ] in
/-- A run that goes on behind a wait has put the wait on record. -/
theorem timeless_suspendDrawn {drawn : Option Delay × Generator} {r r' : Run σ}
    (h : r.suspendDrawn drawn = .goes r') : r'.timeless g = (r.timeless g).did (.wait .zero) := by
  obtain ⟨delay?, generator⟩ := drawn
  cases delay? with
  | none => cases h
  | some delay =>
    simp only [suspendDrawn, suspend] at h
    split at h
    · cases h
    · split at h
      · cases h
      · cases h
        rfl

omit [Surface σ] in
/-- Whether a stroke waits depends on the ledger alone. -/
theorem wait?_isSome_congr {a b : Run σ} (h : a.timeless g = b.timeless g) (pace pace' : Pace)
    (x : Stroke) : (a.wait? pace x).isSome = (b.wait? pace' x).isSome := by
  have hledger : (a.timeless g).ledger = (b.timeless g).ledger := by rw [h]
  change a.ledger = b.ledger at hledger
  cases x with
  | type | pause | hold => exact Option.isSome_some.trans Option.isSome_some.symm
  | opening | closing | enter | turn => rfl
  | erase =>
    simp only [wait?, hledger]
    split
    · rfl
    · exact Option.isSome_some.trans Option.isSome_some.symm

/-- Two runs that differ in nothing but time differ in nothing else when both have gone on. -/
theorem timeless_strike {pace pace' : Pace} {x : Stroke} {a a' b b' : Run σ}
    (h : a.timeless g = b.timeless g) (ha : a.strike pace x = .goes a')
    (hb : b.strike pace' x = .goes b') : a'.timeless g = b'.timeless g := by
  have hmade : (a.made x).timeless g = (b.made x).timeless g := by
    rw [timeless_made, timeless_made, h]
  have hwaits := wait?_isSome_congr h pace pace' x
  rw [strike_eq] at ha hb
  cases hwa : a.wait? pace x with
  | none =>
    cases hwb : b.wait? pace' x with
    | none =>
      rw [hwa] at ha
      rw [hwb] at hb
      cases ha
      cases hb
      exact hmade
    | some drawn => simp [hwa, hwb] at hwaits
  | some drawn =>
    cases hwb : b.wait? pace' x with
    | none => simp [hwa, hwb] at hwaits
    | some drawn' =>
      rw [hwa] at ha
      rw [hwb] at hb
      rw [timeless_suspendDrawn ha, timeless_suspendDrawn hb, hmade]

/-- Two runs that are the same but for the time are so behind any strokes that both come to. -/
theorem timeless_strikeAll {pace pace' : Pace} {xs : List Stroke} {a a' b b' : Run σ}
    (h : a.timeless g = b.timeless g) (ha : a.strikeAll pace xs = .goes a')
    (hb : b.strikeAll pace' xs = .goes b') : a'.timeless g = b'.timeless g := by
  induction xs generalizing a b with
  | nil =>
    cases ha
    cases hb
    exact h
  | cons x xs ih =>
    obtain ⟨p, hp, ha⟩ := Step.andThen_eq_goes ha
    obtain ⟨q, hq, hb⟩ := Step.andThen_eq_goes hb
    exact ih (timeless_strike h hp hq) ha hb

omit [Surface σ] in
/-- Without its time a run that has not begun is its surface. -/
theorem timeless_begin (pace : Pace) (cancel : Cancel) (s : σ) :
    (Run.begin pace cancel s).timeless g = { surface := s, generator := g } := rfl

end Run

/-- **Time has no part in what a run does.** At any two paces, and however they are watched, two runs
on one surface that come to their ends have done the same. -/
theorem timeless_final {σ : Type} [Surface σ] (g : Generator) {pace pace' : Pace}
    {cancel cancel' : Cancel} {ts : List Token} {s : σ} (h : (typeTokens pace cancel ts s).halt = none)
    (h' : (typeTokens pace' cancel' ts s).halt = none) :
    (typeTokens pace cancel ts s).final.timeless g =
      (typeTokens pace' cancel' ts s).final.timeless g := by
  obtain ⟨a, ha, hfinal⟩ := exists_goes_of_halt h
  obtain ⟨b, hb, hfinal'⟩ := exists_goes_of_halt h'
  have hbegin : (Run.begin pace cancel s).timeless g = (Run.begin pace' cancel' s).timeless g :=
    (Run.timeless_begin pace cancel s).trans (Run.timeless_begin pace' cancel' s).symm
  rw [hfinal, hfinal']
  exact Run.timeless_strikeAll hbegin ha hb

end Typist
