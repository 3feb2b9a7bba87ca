import Typist.Proofs.Run.Alike
import Typist.Proofs.Run.Cancellation
import Typist.Proofs.Sheet.Reachable

/-!
# What a run leaves alone

A run knows only the root of its sheet and the nodes that it makes itself. Whatever a sheet has on it,
in whatever order or disorder, stays as it was, but that the root gets more children; and what the run
does, it would have done on a blank sheet in the same way, under other handles.

* `Sheet.Preserved` — one sheet is still there on another one;
* `Sheet.Preserved.forest_eq` — such a sheet shows what was there, and behind it what is new;
* `Run.Repeats` — a run does what another one does on a blank sheet;
* `Run.Repeats.strikeAll` — two such runs go on together and end together;
* `typeTokens_frame` — what a run leaves alone, and that it does not depend on it.
-/

namespace Typist

/-! ## A sheet that is still there -/

namespace Sheet

/-- The nodes of the first sheet are on the second one as they were; only the root may have got other
children. -/
structure Preserved (s t : Sheet) : Prop where
  size_le : s.size ≤ t.size
  kind_eq : ∀ n < s.size, t.kind n = s.kind n
  parent?_eq : ∀ n < s.size, t.parent? n = s.parent? n
  lastFirst_eq : ∀ n : Node, n < s.size → n ≠ .root → (t.slot n).lastFirst = (s.slot n).lastFirst

/-- The root, or a node that was not on the sheet: what runs on it hang nodes from. -/
def IsOpen (s : Sheet) (p : Node) : Prop :=
  p = Node.root ∨ s.size ≤ p

variable {a s t : Sheet} {p c : Node}

theorem IsOpen.eq_root {n : Node} (h : s.IsOpen n) (hn : n < s.size) : n = .root :=
  h.resolve_right (Nat.not_le_of_lt hn)

/-- A node that is not the root is new under its other handle. -/
theorem size_le_shift (hpos : 0 < s.size) {n : Node} (hroot : n ≠ .root) :
    s.size ≤ shift 1 (s.size - 1) n := by
  have hn : 1 ≤ n := Node.root_lt hroot
  rw [shift_of_le hn]
  grind

/-- What a run on a blank sheet hangs nodes from is open under its other handle. -/
theorem isOpen_shift (hpos : 0 < s.size) (n : Node) : s.IsOpen (shift 1 (s.size - 1) n) := by
  by_cases hroot : n = .root
  · rw [hroot, shift_root Nat.one_pos]
    exact .inl rfl
  · exact .inr (size_le_shift hpos hroot)

/-- The root has its other children in front of those that are like those of the other sheet. -/
theorem Alike.children_root {d : Nat} (h : Alike 1 d (s.slot .root).lastFirst a t) (ha : Sound a) :
    t.children .root = s.children .root ++ (a.children .root).map (shift 1 d) := by
  have hlast := h.lastFirst_eq .root ha.pos
  rw [shift_root h.pos, if_pos rfl] at hlast
  rw [children, hlast, List.reverse_append, ← List.map_reverse]
  rfl

namespace Preserved

theorem refl (s : Sheet) : Preserved s s :=
  ⟨Nat.le_refl _, fun _ _ => rfl, fun _ _ => rfl, fun _ _ _ => rfl⟩

/-- A node that is hung from an open one changes nothing of what was there. -/
theorem hang (h : Preserved s t) (hp : p < t.size) (hopen : s.IsOpen p) (k : Kind) :
    Preserved s (t.hang p k) where
  size_le := by
    rw [size_hang]
    exact Nat.le_succ_of_le h.size_le
  kind_eq := by
    intro n hn
    rw [kind_hang_of_lt hp (Nat.lt_of_lt_of_le hn h.size_le), h.kind_eq n hn]
  parent?_eq := by
    intro n hn
    rw [parent?_hang_of_lt hp (Nat.lt_of_lt_of_le hn h.size_le), h.parent?_eq n hn]
  lastFirst_eq := by
    intro n hn hroot
    have hne : n ≠ p := by
      rintro rfl
      exact hroot (hopen.eq_root hn)
    rw [lastFirst_hang hp, if_neg hne, h.lastFirst_eq n hn hroot]

/-- A new node that is taken off an open one changes nothing of what was there. -/
theorem remove (h : Preserved s t) (hmem : c ∈ (t.slot p).lastFirst) (hc : c < t.size)
    (hopen : s.IsOpen p) (hnew : s.size ≤ c) : Preserved s (t.remove p c) where
  size_le := by
    rw [size_remove]
    exact h.size_le
  kind_eq := by
    intro n hn
    rw [kind_remove hmem hc, h.kind_eq n hn]
  parent?_eq := by
    intro n hn
    have hne : n ≠ c := Nat.ne_of_lt (Nat.lt_of_lt_of_le hn hnew)
    rw [parent?_remove hmem hc, if_neg hne, h.parent?_eq n hn]
  lastFirst_eq := by
    intro n hn hroot
    have hne : n ≠ p := by
      rintro rfl
      exact hroot (hopen.eq_root hn)
    rw [lastFirst_remove hmem hc, if_neg hne, h.lastFirst_eq n hn hroot]

/-- Below a node that was there hangs what did. -/
theorem forestBelow_eq (h : Preserved s t) (hs : Linked s) (depth : Nat) {n : Node}
    (hn : n < s.size) (hroot : n ≠ .root) : t.forestBelow depth n = s.forestBelow depth n := by
  induction depth generalizing n with
  | zero => rfl
  | succ depth ih =>
    rw [forestBelow_succ, forestBelow_succ, children, h.lastFirst_eq n hn hroot, ← children]
    refine List.filterMap_congr fun child hchild => ?_
    have hlt := lt_size_of_parent? (hs.mem_iff.1 (List.mem_reverse.1 hchild))
    exact treeAt?_congr (h.kind_eq child hlt) fun hk => ih hlt (hs.ne_root hk)

/-- A sheet with a blank sheet's run on it shows what it showed, and then what that one does. -/
theorem forest_eq (h : Preserved s t) (hs : Linked s) (ha : Sound a)
    (halike : Alike 1 (s.size - 1) (s.slot .root).lastFirst a t) :
    t.forest = s.forest ++ a.forest := by
  obtain ⟨depth, hdepth⟩ : ∃ depth, t.size = depth + 1 :=
    Nat.exists_eq_add_of_le' (Nat.le_trans hs.pos h.size_le)
  -- the old children show what they did, the others what their likes do on their own sheet
  have hold : (s.children .root).filterMap (t.treeAt? depth) =
      (s.children .root).filterMap (s.treeAt? depth) := by
    refine List.filterMap_congr fun child hchild => ?_
    have hlt := lt_size_of_parent? (hs.mem_iff.1 (List.mem_reverse.1 hchild))
    exact treeAt?_congr (h.kind_eq child hlt) fun hk =>
      h.forestBelow_eq hs depth hlt (hs.ne_root hk)
  have hnew : (a.children .root).filterMap (t.treeAt? depth ∘ shift 1 (s.size - 1)) =
      (a.children .root).filterMap (a.treeAt? depth) := by
    refine List.filterMap_congr fun child hchild => ?_
    have hp := ha.mem_children_iff.1 hchild
    have hlt := lt_size_of_parent? hp
    exact treeAt?_congr (halike.kind_eq child hlt) fun _ =>
      halike.forestBelow_eq ha depth hlt fun hroot => absurd hroot (ha.ne_root hp)
  have hsize := halike.size_eq
  have hle := h.size_le
  rw [forest, hdepth, forestBelow_succ, halike.children_root ha, List.filterMap_append, List.filterMap_map, hold,
    hnew, ← forestBelow_succ, ← forestBelow_succ, hs.forest_eq (depth + 1) (by omega),
    ha.linked.forest_eq (depth + 1) (by omega)]

end Preserved

end Sheet

/-! ## Runs that do the same -/

/-- An act under other handles. -/
def Act.shift (base d : Nat) : Act → Act
  | .glyph node value => .glyph (Typist.shift base d node) value
  | .container node tag => .container (Typist.shift base d node) tag
  | .append parent child => .append (Typist.shift base d parent) (Typist.shift base d child)
  | .remove parent child => .remove (Typist.shift base d parent) (Typist.shift base d child)
  | .wait delay => .wait delay

theorem Act.delay?_comp_shift (base d : Nat) : Act.delay? ∘ Act.shift base d = Act.delay? := by
  funext act
  cases act <;> rfl

/-- Both steps go on, or both end for the same reason, with runs of which this holds. -/
inductive Step.Both {σ : Type} (R : Run σ → Run σ → Prop) : Step σ → Step σ → Prop
  | goes {a b : Run σ} (h : R a b) : Both R (.goes a) (.goes b)
  | ends (halt : Halt) {a b : Run σ} (h : R a b) : Both R (.ends halt a) (.ends halt b)

namespace Step.Both

variable {σ : Type} {R : Run σ → Run σ → Prop} {s t : Step σ}

/-- Steps that both go on are followed by steps of which the same holds. -/
theorem andThen (h : Both R s t) {f g : Run σ → Step σ}
    (hnext : ∀ a b, R a b → Both R (f a) (g b)) : Both R (s.andThen f) (t.andThen g) := by
  cases h with
  | goes h => exact hnext _ _ h
  | ends halt h => exact .ends halt h

/-- Both runs come out in the same way. -/
theorem outcome (h : Both R s t) :
    (Outcome.ofStep t).halt = (Outcome.ofStep s).halt ∧
      R (Outcome.ofStep s).final (Outcome.ofStep t).final := by
  cases h with
  | goes h => exact ⟨rfl, h⟩
  | ends halt h => exact ⟨rfl, h⟩

end Step.Both

namespace Run

/-- The second run has done what the first one has done, under other handles, and has counted, drawn
and remarked the same. -/
structure Agrees (d : Nat) (a b : Run Sheet) : Prop where
  history : b.history = a.history.map (Act.shift 1 d)
  generator : b.generator = a.generator
  cancel : b.cancel = a.cancel
  summary : b.summary = a.summary
  notes : b.notes = a.notes

/-- The second run is on a sheet that was `s`, and has left it alone; behind that its sheet is like
that of the first one, with which it agrees. -/
structure Echoes (s : Sheet) (a b : Run Sheet) : Prop where
  pos : 0 < s.size
  sound : a.surface.Sound
  surface : Sheet.Alike 1 (s.size - 1) (s.slot .root).lastFirst a.surface b.surface
  preserved : s.Preserved b.surface
  reachable : b.surface.Reachable
  agrees : Agrees (s.size - 1) a b

/-- The second run does, on a sheet that was `s`, what the first one does on a blank one. -/
structure Repeats (s : Sheet) (a b : Run Sheet) : Prop where
  shaped : Shaped a
  alike : Alike 1 (s.size - 1) (s.slot .root).lastFirst a b
  echoes : Echoes s a b

variable {s : Sheet} {a b a' b' : Run Sheet}

namespace Echoes

/-- Both runs take like nodes off. -/
theorem remove {p c : Node} (h : Echoes s a b) (hp : a.surface.parent? c = some p) :
    Echoes s (a.remove p c) (b.remove (shift 1 (s.size - 1) p) (shift 1 (s.size - 1) c)) := by
  obtain ⟨hhistory, hgenerator, hcancel, hsummary, hnotes⟩ := h.agrees
  have hc := Sheet.lt_size_of_parent? hp
  have hp' := h.surface.lt_size (h.sound.parent?_lt_size hp)
  have hc' := h.surface.lt_size hc
  have hroot := h.sound.ne_root hp
  have hmem := h.reachable.linked.mem_iff.2
    ((h.surface.parent?_eq c hc hroot).trans (congrArg _ hp))
  have hpreserved := h.preserved.remove hmem hc' (Sheet.isOpen_shift h.pos p)
    (Sheet.size_le_shift h.pos hroot)
  exact ⟨h.pos, h.sound.remove hp, h.surface.remove h.sound hp, hpreserved,
    h.reachable.remove hp' hc', congrArg (List.cons _) hhistory, hgenerator,
    congrArg (Cancel.pass .remove) hcancel, hsummary, hnotes⟩

/-- Both runs hang up a new node of the same kind. -/
theorem hang (h : Echoes s a b) {p : Node} (hp : a.surface.Accepts p) {k : Kind} (hk : k ≠ .root)
    (ha : a'.surface = a.surface.hang p k)
    (hb : b'.surface = b.surface.hang (shift 1 (s.size - 1) p) k)
    (hagrees : Agrees (s.size - 1) a' b') : Echoes s a' b' := by
  have hlt := h.surface.lt_size hp.lt_size
  have hsurface := h.surface.hang hp.lt_size k
  have hpreserved := h.preserved.hang hlt (Sheet.isOpen_shift h.pos p) k
  have hreachable := h.reachable.hang hlt hk
  rw [← hb] at hsurface hpreserved hreachable
  have hsound := h.sound.hang hp hk
  rw [← ha] at hsound hsurface
  exact ⟨h.pos, hsound, hsurface, hpreserved, hreachable, hagrees⟩

/-- Both runs do something else than to their sheets. -/
theorem books (h : Echoes s a b) (ha : a'.surface = a.surface) (hb : b'.surface = b.surface)
    (hagrees : Agrees (s.size - 1) a' b') : Echoes s a' b' := by
  obtain ⟨hpos, hsound, hsurface, hpreserved, hreachable, -⟩ := h
  rw [← ha] at hsound hsurface
  rw [← hb] at hsurface hpreserved hreachable
  exact ⟨hpos, hsound, hsurface, hpreserved, hreachable, hagrees⟩

end Echoes

namespace Repeats

/-- Both runs close the same. -/
theorem closing (h : Repeats s a b) (tag : Tag) :
    Echoes s (a.made (.closing tag)) (b.made (.closing tag)) := by
  obtain ⟨hhistory, hgenerator, hcancel, hsummary, hnotes⟩ := h.echoes.agrees
  obtain ⟨hc, hc'⟩ | ⟨closed, kept, hc, hc', hnodes⟩ := h.alike.closing_cases h.shaped tag
  · simp only [Run.made, closeScope, hc, hc']
    exact h.echoes.books rfl rfl ⟨hhistory, hgenerator, hcancel,
      congrArg (fun s : Summary => { s with ignoredCloses := s.ignoredCloses + 1 }) hsummary,
      congrArg (List.cons _) hnotes⟩
  · simp only [Run.made]
    rw [closeScope_of_eq_some hc, closeScope_of_eq_some hc']
    have hkept : Echoes s { a with scopes := kept }
        { b with scopes := kept.map (shift 1 (s.size - 1)) } :=
      h.echoes.books rfl rfl ⟨hhistory, hgenerator, hcancel, hsummary, hnotes⟩
    exact foldl_removeIfEmpty_alike (fun h => ⟨h.sound, h.surface⟩) Echoes.remove hkept hnodes

/-- Both runs erase the same. -/
theorem erase (h : Repeats s a b) : Echoes s (a.made .erase) (b.made .erase) := by
  obtain ⟨hhistory, hgenerator, hcancel, hsummary, hnotes⟩ := h.echoes.agrees
  obtain ⟨hl, hl'⟩ | ⟨node, ledger, hl, hl', hn, hroot⟩ := h.alike.ledger_cases h.shaped
  · rw [made_erase_of_nil hl, made_erase_of_nil hl']
    exact h.echoes
  · rw [made_erase_of_cons hl, made_erase_of_cons hl']
    have hkept : Echoes s { a with ledger }
        { b with ledger := ledger.map (shift 1 (s.size - 1)) } :=
      h.echoes.books rfl rfl ⟨hhistory, hgenerator, hcancel, hsummary, hnotes⟩
    have hoff := takeOff_alike (fun h => ⟨h.sound, h.surface⟩) Echoes.remove hkept
      h.shaped.size_le h.alike.size_le hn hroot
    obtain ⟨hhistory, hgenerator, hcancel, hsummary, hnotes⟩ := hoff.agrees
    exact hoff.books rfl rfl ⟨hhistory, hgenerator, hcancel,
      congrArg (fun s : Summary => { s with erased := s.erased + 1 }) hsummary, hnotes⟩

/-- Both runs do a stroke. -/
theorem made (h : Repeats s a b) (x : Stroke) : Repeats s (a.made x) (b.made x) := by
  refine ⟨h.shaped.made x, h.alike.made h.shaped x, ?_⟩
  obtain ⟨hhistory, hgenerator, hcancel, hsummary, hnotes⟩ := h.echoes.agrees
  -- a new node gets the handle that is next on its sheet
  have hnew : b.surface.size = shift 1 (s.size - 1) a.surface.size :=
    h.alike.surface.shift_size.symm
  have hcurrent := h.alike.current_eq
  have hhang (k : Kind) : b.surface.hang b.current k =
      b.surface.hang (shift 1 (s.size - 1) a.current) k := by rw [hcurrent]
  have hpass := congrArg (Cancel.pass .append) hcancel
  cases x with
  | type value =>
    have hacts : Act.append b.current b.surface.size :: .glyph b.surface.size value :: b.history =
        (Act.append a.current a.surface.size :: .glyph a.surface.size value :: a.history).map
          (Act.shift 1 (s.size - 1)) := by
      rw [hcurrent, hnew, hhistory]
      rfl
    exact h.echoes.hang h.shaped.accepts_current Kind.noConfusion rfl (hhang (.glyph value))
      ⟨hacts, hgenerator, hpass,
        congrArg (fun s : Summary => { s with typed := s.typed + 1 }) hsummary, hnotes⟩
  | opening tag =>
    have hacts : Act.append b.current b.surface.size :: .container b.surface.size tag ::
          b.history =
        (Act.append a.current a.surface.size :: .container a.surface.size tag :: a.history).map
          (Act.shift 1 (s.size - 1)) := by
      rw [hcurrent, hnew, hhistory]
      rfl
    exact h.echoes.hang h.shaped.accepts_current Kind.noConfusion rfl (hhang (.container tag))
      ⟨hacts, hgenerator, hpass, hsummary, hnotes⟩
  | closing tag => exact h.closing tag
  | erase => exact h.erase
  | pause millis =>
    exact h.echoes.books rfl rfl ⟨hhistory, hgenerator, hcancel,
      congrArg (fun s : Summary => { s with pauses := s.pauses + 1 }) hsummary, hnotes⟩
  | enter tokens =>
    exact h.echoes.books rfl rfl ⟨hhistory, hgenerator, hcancel,
      congrArg (fun s : Summary => { s with regions := s.regions + 1 }) hsummary,
      congrArg (List.cons _) hnotes⟩
  | turn units =>
    exact h.echoes.books rfl rfl
      ⟨hhistory, hgenerator, hcancel, hsummary, congrArg (List.cons _) hnotes⟩
  | hold => exact h.echoes

/-! ### Waiting -/

/-- Both runs have waited, and agree. -/
theorem waits (h : Repeats s a b) (ha : Waits a a') (hb : Waits b b')
    (hagrees : Agrees (s.size - 1) a' b') : Repeats s a' b' :=
  ⟨h.shaped.of_waits ha, h.alike.of_waits ha hb, h.echoes.books ha.surface hb.surface hagrees⟩

/-- Both runs wait, or both end. -/
theorem suspend (h : Repeats s a b) (delay : Delay) :
    Step.Both (Repeats s) (a.suspend delay) (b.suspend delay) := by
  obtain ⟨hhistory, hgenerator, hcancel, hsummary, hnotes⟩ := h.echoes.agrees
  have hasked (cancel : Cancel) : Repeats s (a.asked delay cancel) (b.asked delay cancel) :=
    h.waits (a.asked_waits delay cancel) (b.asked_waits delay cancel)
      ⟨congrArg (List.cons (Act.wait delay)) hhistory, hgenerator, rfl,
        congrArg (fun s : Summary => { s with requested := s.requested + delay }) hsummary, hnotes⟩
  rw [suspend_eq, suspend_eq, hcancel]
  split
  · exact .ends _ h
  · dsimp only
    split
    · exact .ends _ (hasked _)
    · exact .goes (hasked _)

/-- Both runs wait for what was drawn, or both cannot. -/
theorem suspendDrawn (h : Repeats s a b) (drawn : Option Delay × Generator) :
    Step.Both (Repeats s) (a.suspendDrawn drawn) (b.suspendDrawn drawn) := by
  obtain ⟨hhistory, -, hcancel, hsummary, hnotes⟩ := h.echoes.agrees
  have hdrawn (r : Run Sheet) : Waits r { r with generator := drawn.2 } :=
    ⟨rfl, rfl, rfl, rfl, rfl, [], rfl, by simp⟩
  simp only [Run.suspendDrawn]
  cases drawn.1 with
  | none => exact .ends _ h
  | some delay =>
    exact (h.waits (hdrawn a) (hdrawn b) ⟨hhistory, rfl, hcancel, hsummary, hnotes⟩).suspend delay

/-- Both runs do a stroke and wait, or both end there. -/
theorem strike (h : Repeats s a b) (pace : Pace) (x : Stroke) :
    Step.Both (Repeats s) (a.strike pace x) (b.strike pace x) := by
  have hwait : b.wait? pace x = a.wait? pace x := by
    have hempty : b.ledger = [] ↔ a.ledger = [] := by rw [h.alike.ledger, List.map_eq_nil_iff]
    cases x <;> simp only [wait?, h.echoes.agrees.generator, hempty]
  rw [strike_eq, strike_eq, hwait]
  cases a.wait? pace x with
  | none => exact .goes (h.made x)
  | some drawn => exact (h.made x).suspendDrawn drawn

/-- Both runs go on together and end together. -/
theorem strikeAll (h : Repeats s a b) (pace : Pace) (xs : List Stroke) :
    Step.Both (Repeats s) (a.strikeAll pace xs) (b.strikeAll pace xs) := by
  induction xs generalizing a b with
  | nil => exact .goes h
  | cons x xs ih =>
    rw [strikeAll_cons, strikeAll_cons]
    exact (h.strike pace x).andThen fun _ _ h' => ih h'

end Repeats

/-- On any sheet that the operations make a run begins as on a blank one, other handles aside. -/
theorem repeats_begin (pace : Pace) (cancel : Cancel) (hs : s.Reachable) :
    Repeats s (.begin pace cancel .blank) (.begin pace cancel s) := by
  have hlinked := hs.linked
  have halike : Sheet.Alike 1 (s.size - 1) (s.slot .root).lastFirst .blank s := by
    have hone {n : Node} (hn : n < Sheet.blank.size) : n = .root := Nat.lt_one_iff.1 hn
    refine ⟨Nat.one_pos, Nat.le_refl _, ?_, ?_, ?_, ?_⟩
    · exact (Nat.add_sub_cancel' hlinked.pos).symm
    · intro n hn
      rw [hone hn, shift_root Nat.one_pos, hlinked.root]
      rfl
    · exact fun n hn hroot => absurd (hone hn) hroot
    · intro n hn
      rw [hone hn, shift_root Nat.one_pos, if_pos rfl]
      rfl
  have hshaped := shaped_begin pace cancel
  exact ⟨hshaped, ⟨halike, rfl, rfl, hshaped.size_le⟩, hlinked.pos, hshaped.sound, halike, .refl s,
    hs, rfl, rfl, rfl, rfl, rfl⟩

/-- Both runs do the same from their beginning to their end. -/
theorem repeats_typeTokens (pace : Pace) (cancel : Cancel) (ts : List Token) (hs : s.Reachable) :
    (typeTokens pace cancel ts s).halt = (typeTokens pace cancel ts Sheet.blank).halt ∧
      Repeats s (typeTokens pace cancel ts Sheet.blank).final (typeTokens pace cancel ts s).final := by
  rw [typeTokens_eq, typeTokens_eq]
  exact ((repeats_begin pace cancel hs).strikeAll pace (script ts)).outcome

end Run

/-- **A run leaves alone what was on its sheet, and does what it would do on a blank one.** The sheet
may be any that the operations on sheets make, and what a run leaves is such a sheet again, however
the run came out. Each node that was there is of its kind, hangs where it did and has the children
that it had; only the root has got new ones, behind the others. The visible text is what was visible
and then what the run makes visible on a blank sheet. It makes the same acts there under other
handles, ends for the same reason if it ends early, counts and remarks the same, and asks for the same
waits. At another pace, or with another cancellation, it makes the same visible if both times it comes
to its end. -/
theorem typeTokens_frame (pace : Pace) (cancel : Cancel) (ts : List Token) {s : Sheet}
    (hs : s.Reachable) :
    let fresh := typeTokens pace cancel ts Sheet.blank
    let out := typeTokens pace cancel ts s
    let after := out.final.surface
    after.Reachable ∧
      (∀ n : Node, n < s.size → after.kind n = s.kind n ∧ after.parent? n = s.parent? n ∧
        (n ≠ .root → after.children n = s.children n)) ∧
      (∃ new, after.children .root = s.children .root ++ new ∧ ∀ n ∈ new, s.size ≤ n) ∧
      after.spans = s.spans ++ fresh.final.surface.spans ∧
      out.acts = fresh.acts.map (Act.shift 1 (s.size - 1)) ∧
      out.halt = fresh.halt ∧ out.final.summary = fresh.final.summary ∧
      out.delays = fresh.delays ∧ out.notes = fresh.notes ∧
      ∀ (pace' : Pace) (cancel' : Cancel),
        let other := typeTokens pace' cancel' ts Sheet.blank
        out.halt = none → other.halt = none →
          after.spans = s.spans ++ other.final.surface.spans := by
  intro fresh out after
  have hlinked := hs.linked
  obtain ⟨hhalt, hrepeats⟩ := Run.repeats_typeTokens pace cancel ts hs
  obtain ⟨hpos, hsound, halike, hpreserved, hreachable, hhistory, -, -, hsummary, hnotes⟩ :=
    hrepeats.echoes
  have hspans : after.spans = s.spans ++ fresh.final.surface.spans := by
    rw [Sheet.spans, hpreserved.forest_eq hlinked hsound halike, Tree.spans_append]
    rfl
  refine ⟨hreachable, ?_, ?_, hspans, ?_, hhalt, hsummary, ?_, congrArg List.reverse hnotes, ?_⟩
  · intro n hn
    exact ⟨hpreserved.kind_eq n hn, hpreserved.parent?_eq n hn, fun hroot =>
      congrArg List.reverse (hpreserved.lastFirst_eq n hn hroot)⟩
  · refine ⟨_, halike.children_root hsound, fun n hn => ?_⟩
    obtain ⟨m, hm, rfl⟩ := List.mem_map.1 hn
    exact Sheet.size_le_shift hpos (hsound.ne_root (hsound.mem_children_iff.1 hm))
  · rw [Outcome.acts, hhistory, ← List.map_reverse]
    rfl
  · rw [Outcome.delays, hhistory, List.filterMap_map, Act.delay?_comp_shift]
    rfl
  · intro pace' cancel' other hend hother
    obtain ⟨a, ha, hafinal⟩ := exists_goes_of_halt (hhalt.symm.trans hend)
    obtain ⟨b, hb, hbfinal⟩ := exists_goes_of_halt hother
    have hsame := (Run.alike_begin pace pace' cancel cancel').strikeAll (Run.shaped_begin _ _) ha hb
    have hforest : other.final.surface.forest = fresh.final.surface.forest := by
      rw [show other.final = b from hbfinal, show fresh.final = a from hafinal]
      exact hsame.surface.forest_eq (hafinal ▸ hsound)
    rw [hspans, Sheet.spans, Sheet.spans, Sheet.spans, hforest]

/-- A run on a sheet in disorder. A run was cancelled on it in a scope; then a container was hung
below itself, and the root below a glyph. -/
theorem typeTokens_frame_disorder :
    let ts : List Token := [.scopeStart .bold, .text ['a', 'b']]
    let left := (typeTokens .steady (.countdown .request 1) ts Sheet.blank).final.surface
    let s := ((Surface.createContainer left .gray).2.append 4 4).append 2 .root
    s.Reachable ∧ s.spans = [('a', Style.plain.under .bold), ('b', Style.plain.under .bold)] ∧
      (typeTokens .steady .never [.scopeEnd .bold, .text ['c']] s).final.surface.spans =
        s.spans ++ [('c', .plain)] := by
  intro ts left s
  have hleft : left.Reachable := (typeTokens_frame .steady (.countdown .request 1) ts .blank).1
  have hsize : left.size = 4 := by decide +kernel
  have hcreate : (Surface.createContainer left .gray).2.size = 5 :=
    (Sheet.size_create left _).trans (congrArg Nat.succ hsize)
  have hs : s.Reachable := by
    have hself : ((Surface.createContainer left .gray).2.append 4 4).Reachable :=
      (hleft.createContainer .gray).append (by rw [hcreate]; decide) (by rw [hcreate]; decide)
    exact hself.append (by rw [Sheet.size_append, hcreate]; decide)
      (by rw [Sheet.size_append, hcreate]; decide)
  have hfresh : (typeTokens .steady .never [.scopeEnd .bold, .text ['c']]
      Sheet.blank).final.surface.spans = [('c', .plain)] := by decide +kernel
  have hframe := typeTokens_frame .steady .never [.scopeEnd .bold, .text ['c']] hs
  exact ⟨hs, by decide +kernel, hfresh ▸ hframe.2.2.2.1⟩

end Typist
