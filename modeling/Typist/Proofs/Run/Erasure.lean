import Typist.Proofs.Run.Record
import Typist.Proofs.Run.Visible

/-!
# A region erases what it has typed

A region knows only how long the ledger was when it was entered. That is enough, whatever is in it:
it may close scopes that were open before, type into scopes that hang nowhere, and have regions of
its own. What was typed before it stays on the ledger, and what of that hangs from the root stays
where it is; so the region takes off its own glyphs and no others, the last one first.

* `Run.Spares` — what a run has left alone since it stood somewhere, if it has erased nothing that
  was on the ledger there;
* `Run.Behind.spares` — strokes that erase only what they have typed leave that alone;
* `Run.ledger_strikeAll` — what the ledger gains by such strokes, told by the acts;
* `Run.ledger_and_spans_of_region`, `Run.region_erases` — what is behind a region, and what the region
  has erased;
* `typeTokens_erases` — what a region erases, and what is left behind it.
-/

namespace Typist

namespace Sheet

variable {s t : Sheet}

/-- What hangs from the root and was there before hung there before, if nodes that were there have
got no new parents. -/
theorem Hangs.back (hs : Sound s)
    (hback : ∀ n p, n < s.size → t.parent? n = some p → s.parent? n = some p) {n : Node}
    {around : List Node} (h : t.Hangs (n :: around)) (hn : n < s.size) : s.Hangs (n :: around) := by
  induction around generalizing n with
  | nil => exact ⟨hback _ _ hn h.1, trivial⟩
  | cons p around ih =>
    have hp := hback _ _ hn h.1
    exact ⟨hp, ih h.2 (hs.parent?_lt_size hp)⟩

end Sheet

namespace Run

/-! ## What stays as it is -/

/-- A run that has left alone what was typed when it stood like `a`; there the draft was `base`, and
now it is `d`. -/
structure Spares (base : Draft) (a : Run Sheet) (d : Draft) (r : Run Sheet) : Prop where
  ledger : ∃ own fresh, r.ledger = own ++ a.ledger ∧ d.units = fresh ++ base.units ∧
    own.length = fresh.length
  size_le : a.surface.size ≤ r.surface.size
  kind_eq : ∀ n < a.surface.size, r.surface.kind n = a.surface.kind n
  /-- what was there hangs where it did or nowhere -/
  parent?_of : ∀ n p, n < a.surface.size → r.surface.parent? n = some p →
    a.surface.parent? n = some p
  /-- a glyph of the ledger that hung from the root does so still, in the same way -/
  hangs : ∀ u ∈ a.ledger, ∀ around, a.surface.Hangs (u :: around) → r.surface.Hangs (u :: around)

namespace Spares

variable {base d : Draft} {a r r' : Run Sheet}

theorem refl (base : Draft) (a : Run Sheet) : Spares base a base a :=
  ⟨⟨[], [], rfl, rfl, rfl⟩, Nat.le_refl _, fun _ _ => rfl, fun _ _ _ h => h, fun _ _ _ h => h⟩

theorem mem_ledger (h : Spares base a d r) {u : Node} (hu : u ∈ a.ledger) : u ∈ r.ledger := by
  obtain ⟨own, -, hledger, -⟩ := h.ledger
  rw [hledger]
  exact List.mem_append_right _ hu

theorem of_waits (h : Spares base a d r) (hw : Waits r r') : Spares base a d r' := by
  obtain ⟨h₁, h₂, h₃, h₄, h₅⟩ := h
  rw [← hw.ledger] at h₁
  rw [← hw.surface] at h₂ h₃ h₄ h₅
  exact ⟨h₁, h₂, h₃, h₄, h₅⟩

/-- A new node changes nothing that was there. -/
theorem hang (h : Spares base a d r) {p : Node} (hp : p < r.surface.size) {k : Kind}
    {d' : Draft} (hs : r'.surface = r.surface.hang p k)
    (hl : ∃ own fresh, r'.ledger = own ++ a.ledger ∧ d'.units = fresh ++ base.units ∧
      own.length = fresh.length) : Spares base a d' r' where
  ledger := hl
  size_le := by
    rw [hs, Sheet.size_hang]
    exact Nat.le_succ_of_le h.size_le
  kind_eq := by
    intro n hn
    rw [hs, Sheet.kind_hang_of_lt hp (Nat.lt_of_lt_of_le hn h.size_le), h.kind_eq n hn]
  parent?_of := by
    intro n q hn hq
    rw [hs, Sheet.parent?_hang_of_lt hp (Nat.lt_of_lt_of_le hn h.size_le)] at hq
    exact h.parent?_of n q hn hq
  hangs := by
    intro u hu around hhangs
    rw [hs]
    exact (h.hangs u hu around hhangs).hang hp

/-- Taking off empty nodes that are not on the ledger breaks no way up from the ledger. -/
theorem shed (h : Spares base a d r) (hr : Shaped r) {gone : List Node} {d' : Draft}
    (hshed : r.surface.Sheds gone r'.surface) (hgone : ∀ u ∈ a.ledger, u ∉ gone)
    (hl : ∃ own fresh, r'.ledger = own ++ a.ledger ∧ d'.units = fresh ++ base.units ∧
      own.length = fresh.length) : Spares base a d' r' where
  ledger := hl
  size_le := by
    rw [hshed.size_eq]
    exact h.size_le
  kind_eq := by
    intro n hn
    rw [hshed.kind_eq hr.sound, h.kind_eq n hn]
  parent?_of := fun n p hn hp =>
    h.parent?_of n p hn (hshed.parent?_of_eq_some hr.sound hp).2
  hangs := fun u hu around hhangs =>
    (h.hangs u hu around hhangs).shed hshed hr.sound (hgone u hu)

theorem closing (h : Spares base a d r) (hr : Shaped r) (tag : Tag) :
    Spares base a (d.strike (.closing tag)) (r.made (.closing tag)) := by
  obtain ⟨closed, gone, hscopes, hshed, hgone, hledger, -⟩ := r.made_closing tag hr.sound
  refine h.shed hr hshed (fun u hu hmem => hr.not_mem_scopes (h.mem_ledger hu) ?_) ?_
  · rw [hscopes]
    exact List.mem_append_left _ (hgone u hmem)
  · rw [hledger]
    exact h.ledger

/-- An erasure of something that was typed since. -/
theorem erase (h : Spares base a d r) (hr : Shaped r) (hlt : base.units.length < d.units.length) :
    Spares base a (d.strike .erase) (r.made .erase) := by
  obtain ⟨own, fresh, hledger, hunits, hlen⟩ := h.ledger
  cases fresh with
  | nil =>
    rw [hunits] at hlt
    exact absurd hlt (Nat.lt_irrefl _)
  | cons unit fresh =>
    cases own with
    | nil => cases hlen
    | cons node own =>
      obtain ⟨gone, hshed, hgone, -, hledger', -⟩ := hr.made_erase hledger
      refine h.shed hr hshed (fun u hu => hgone u (List.mem_append_right _ hu))
        ⟨own, fresh, hledger', ?_, Nat.succ.inj hlen⟩
      change d.units.tail = _
      rw [hunits]
      rfl

/-- A stroke that erases only what was typed since leaves alone what was typed before. -/
theorem made (h : Spares base a d r) (hr : Shaped r) {x : Stroke}
    (hx : x = .erase → base.units.length < d.units.length) :
    Spares base a (d.strike x) (r.made x) := by
  cases x with
  | type value =>
    obtain ⟨own, fresh, hledger, hunits, hlen⟩ := h.ledger
    refine h.hang hr.accepts_current.lt_size rfl
      ⟨r.surface.size :: own, (value, d.tags) :: fresh, ?_, ?_, congrArg Nat.succ hlen⟩
    · exact congrArg (List.cons _) hledger
    · exact congrArg (List.cons _) hunits
  | opening tag => exact h.hang hr.accepts_current.lt_size rfl h.ledger
  | closing tag => exact h.closing hr tag
  | erase => exact h.erase hr (hx rfl)
  | pause | enter | turn => exact ⟨h.ledger, h.size_le, h.kind_eq, h.parent?_of, h.hangs⟩
  | hold => exact h

/-- What was on the ledger hangs from the root now if it did then. -/
theorem attached?_iff (h : Spares base a d r) (ha : Shaped a) (hr : Shaped r) {u : Node}
    (hu : u ∈ a.ledger) :
    r.surface.attached? u = some true ↔ a.surface.attached? u = some true := by
  have hlt := ha.lt_size_of_mem_ledger hu
  rw [Sheet.attached?_eq_some_true_iff hr.sound (Nat.lt_of_lt_of_le hlt h.size_le),
    Sheet.attached?_eq_some_true_iff ha.sound hlt]
  refine or_congr_right (exists_congr fun around => ⟨fun hhangs => ?_, h.hangs u hu around⟩)
  exact hhangs.back ha.sound h.parent?_of hlt

/-- What was visible still is, in front of what was typed since. -/
theorem shown_eq (h : Spares base a d r) (ha : Shaped a) (hr : Shaped r) :
    ∃ more, r.shown d = a.shown base ++ more ∧
      (d.units.length = base.units.length → more = []) := by
  obtain ⟨own, fresh, hledger, hunits, hlen⟩ := h.ledger
  refine ⟨(own.zip fresh).reverse.filter fun e => r.surface.attached? e.1 = some true, ?_, ?_⟩
  · have hbefore : (a.ledger.zip base.units).reverse.filter
        (fun e => r.surface.attached? e.1 = some true) = a.shown base := by
      refine List.filter_congr fun e he => ?_
      have hu : e.1 ∈ a.ledger := (List.of_mem_zip (List.mem_reverse.1 he)).1
      simp only [h.attached?_iff ha hr hu]
    rw [shown, hledger, hunits, List.zip_append hlen, List.reverse_append, List.filter_append,
      hbefore]
  · intro hsame
    rw [hunits, List.length_append] at hsame
    have hnone : fresh = [] := List.eq_nil_of_length_eq_zero (by omega)
    simp [hnone]

end Spares

section

variable {base : Draft} {pace : Pace} {a r : Run Sheet} {done : List Stroke}

/-- Strokes that erase only what they have typed leave alone what was typed before. -/
theorem spares_strikeAll (ha : Shaped a)
    (herase : base.ErasesAbove base.units.length done) (hgo : a.strikeAll pace done = .goes r) :
    Spares base a (base.after done) r := by
  let I : List Stroke → Draft → Run Sheet → Prop := fun xs d r =>
    d.ErasesAbove base.units.length xs ∧ Shaped r ∧ Spares base a d r
  have hmade (x xs d r) (h : I (x :: xs) d r) : I xs (d.strike x) (r.made x) :=
    ⟨h.1.2, h.2.1.made x, h.2.2.made h.2.1 h.1.1⟩
  have hwaits (xs d r r') (hw : Waits r r') (h : I xs d r) : I xs d r' :=
    ⟨h.1, h.2.1.of_waits hw, h.2.2.of_waits hw⟩
  exact (strikeAll_keeps hmade hwaits ⟨herase, ha, .refl base a⟩ hgo).2.2

theorem Behind.spares (ha : Shaped a) (hd : Follows base a)
    (herase : base.ErasesAbove base.units.length done) (h : Behind pace a done r) :
    Shaped r ∧ Follows (base.after done) r ∧ Spares base a (base.after done) r := by
  obtain ⟨rfl, rfl⟩ | ⟨before, x, q, rfl, hq, hw⟩ := h
  · exact ⟨ha, hd, .refl base _⟩
  · obtain ⟨hbefore, hx, -⟩ := Draft.erasesAbove_append.1 herase
    obtain ⟨hr, hfollows⟩ := shaped_strikeAll ha hd hq
    have hspares := spares_strikeAll ha hbefore hq
    rw [Draft.after_append]
    exact ⟨(hr.made x).of_waits hw, (hfollows.made hr x).of_waits hw,
      (hspares.made hr hx).of_waits hw⟩

/-- What was visible is the beginning of what is, and all of it if nothing typed since is left. -/
theorem Spares.spans_eq {d : Draft} (h : Spares base a d r) (ha : Shaped a) (hd : Follows base a)
    (hr : Shaped r) (hfollows : Follows d r) :
    ∃ more, r.surface.spans = a.surface.spans ++ more ∧
      (d.units.length = base.units.length → more = []) := by
  obtain ⟨more, hshown, hnone⟩ := h.shown_eq ha hr
  rw [spans_eq_shown hr hfollows, spans_eq_shown ha hd, hshown, List.map_append]
  refine ⟨_, rfl, fun hsame => ?_⟩
  rw [hnone hsame, List.map_nil]

end

/-! ## What is taken off -/

/-- What a run puts on record stays there. -/
theorem exists_history_strikeAll {σ : Type} [Surface σ] {pace : Pace} {xs : List Stroke}
    {r r' : Run σ} (hgo : r.strikeAll pace xs = .goes r') :
    ∃ acts, r'.history = acts ++ r.history := by
  let I : List Stroke → Draft → Run σ → Prop := fun _ _ q => ∃ acts, q.history = acts ++ r.history
  have hmade (x xs d q) : I (x :: xs) d q → I xs (d.strike x) (q.made x)
    | ⟨acts, hq⟩ => by
      obtain ⟨more, hmore, -⟩ := exists_history_made x q
      exact ⟨more ++ acts, by rw [hmore, hq, List.append_assoc]⟩
  have hwaits (xs d q q') (hw : Waits q q') : I xs d q → I xs d q'
    | ⟨acts, hq⟩ => by
      obtain ⟨waits, hwaits, -⟩ := hw.history
      exact ⟨waits ++ acts, by rw [hwaits, hq, List.append_assoc]⟩
  exact strikeAll_keeps (d := {}) hmade hwaits ⟨[], rfl⟩ hgo

/-- What the ledger has gained are the glyphs that were made since and not taken off since. -/
theorem Recorded.ledger_split {base d : Draft} {a r : Run Sheet} (ha : Recorded a)
    (hashaped : Shaped a) (hr : Recorded r) (hshaped : Shaped r) (h : Spares base a d r)
    {own : List Node} (hledger : r.ledger = own ++ a.ledger) {acts : List Act}
    (hacts : r.history = acts ++ a.history) :
    own = (glyphsMade acts).filter (· ∉ nodesTakenOff acts) := by
  have hsorted := hshaped.ledger_sorted
  have hglyphs := hr.glyphs_sorted
  have hmem := hr.ledger_eq hshaped
  have hmem' := ha.ledger_eq hashaped
  rw [hledger] at hsorted hmem
  rw [hacts, glyphsMade_append, nodesTakenOff_append] at hmem
  rw [hacts, glyphsMade_append] at hglyphs
  have hown := List.pairwise_append.1 hsorted
  have hmade := List.pairwise_append.1 hglyphs
  refine hown.1.eq_of_mem_iff (hmade.1.filter _) fun u => ?_
  -- a new glyph was not taken off before, since it was not there
  have hnew : u ∈ glyphsMade acts → u ∉ nodesTakenOff a.history := by
    intro hu htaken
    have hu' : u ∈ glyphsMade r.history := by
      rw [hacts, glyphsMade_append]
      exact List.mem_append_left _ hu
    obtain ⟨value, hk⟩ := hr.mem_glyphs.1 hu'
    rw [h.kind_eq u (ha.mem_taken.1 htaken).1] at hk
    exact Nat.lt_irrefl u (hmade.2.2 u hu u (ha.mem_glyphs.2 ⟨value, hk⟩))
  have hnot : u ∈ own → u ∉ a.ledger := fun hu hu' => Nat.lt_irrefl u (hown.2.2 u hu u hu')
  have hnot' : u ∈ glyphsMade acts → u ∉ glyphsMade a.history := fun hu hu' =>
    Nat.lt_irrefl u (hmade.2.2 u hu u hu')
  have hu := congrArg (u ∈ ·) hmem
  have hu' := congrArg (u ∈ ·) hmem'
  simp only [List.mem_filter, List.mem_append, decide_eq_true_eq] at hu hu' ⊢
  grind

/-- An erasure is never at a loss: there is always something on the ledger. -/
theorem ledger_ne_nil_of_erase {σ : Type} [Surface σ] {pace : Pace} {cancel : Cancel} {s : σ}
    {ts : List Token} {done rest : List Stroke} {q : Run σ}
    (hscript : script ts = done ++ .erase :: rest)
    (hgo : (Run.begin pace cancel s).strikeAll pace done = .goes q) : q.ledger ≠ [] := by
  have herases := Draft.erasesAbove_script (Nat.zero_le ({} : Draft).units.length) ts
  rw [hscript] at herases
  have hpos := (Draft.erasesAbove_append.1 herases).2.1 rfl
  rw [← length_ledger_strikeAll (d := {}) rfl hgo] at hpos
  exact List.ne_nil_of_length_pos hpos

/-- A region leaves in the draft the characters that were in it. -/
theorem units_after_region (d : Draft) (region : List Token) :
    (d.after (Token.delete region).strokes).units = d.units := by
  obtain ⟨fresh, hunits, hfresh⟩ := d.units_after_strokes (.delete region)
  rw [hunits, List.map_eq_nil_iff.1 hfresh, List.nil_append]

/-- The parts of a region that was played to its end: what is in it, the wait behind that, and the
erasure. -/
theorem play_delete_eq_goes {σ : Type} [Surface σ] {pace : Pace} {region : List Token} {a b : Run σ}
    (hgo : a.play pace (.delete region) = .goes b) :
    ∃ typed held, (a.enterRegion region.length).playAll pace region = .goes typed ∧
      typed.suspend (.ofMillis pace.hold) = .goes held ∧
      held.eraseRegion pace a.ledger.length = .goes b := by
  rw [play] at hgo
  obtain ⟨held, hheld, herase⟩ := Step.andThen_eq_goes hgo
  obtain ⟨typed, htyped, hhold⟩ := Step.andThen_eq_goes hheld
  exact ⟨typed, held, htyped, hhold, herase⟩

/-- What strokes have put on the ledger, if they have erased nothing that was on it: the glyphs that
were made since and not taken off. Acts stand last first here. -/
theorem ledger_strikeAll {pace : Pace} {xs : List Stroke} {a r : Run Sheet} {base : Draft}
    (ha : Shaped a) (hrecorded : Recorded a) (herase : base.ErasesAbove base.units.length xs)
    (hd : Follows base a) (hgo : a.strikeAll pace xs = .goes r) :
    ∃ acts, r.history = acts ++ a.history ∧
      r.ledger = (glyphsMade acts).filter (· ∉ nodesTakenOff acts) ++ a.ledger := by
  have hspares := spares_strikeAll ha herase hgo
  obtain ⟨own, -, hledger, -⟩ := hspares.ledger
  obtain ⟨acts, hacts⟩ := exists_history_strikeAll hgo
  have hown := hrecorded.ledger_split ha (recorded_strikeAll hrecorded ha hgo)
    (shaped_strikeAll ha hd hgo).1 hspares hledger hacts
  exact ⟨acts, hacts, hown ▸ hledger⟩

/-- Behind a region the ledger and what is visible are what they were in front of it. -/
theorem ledger_and_spans_of_region {pace : Pace} {region : List Token} {a b : Run Sheet}
    {base : Draft} (ha : Shaped a) (hd : Follows base a)
    (hgo : a.strikeAll pace (Token.delete region).strokes = .goes b) :
    b.ledger = a.ledger ∧ b.surface.spans = a.surface.spans := by
  obtain ⟨hb, hfollows⟩ := shaped_strikeAll ha hd hgo
  have habove : base.ErasesAbove base.units.length (Token.delete region).strokes :=
    Draft.erasesAbove_strokes (Nat.le_refl _) _
  have hspares := spares_strikeAll ha habove hgo
  have hunits := units_after_region base region
  constructor
  · obtain ⟨own, fresh, hledger, hunits', hlen⟩ := hspares.ledger
    have hfresh : fresh = [] := List.append_cancel_right (hunits'.symm.trans hunits)
    rw [hfresh] at hlen
    rw [hledger, List.eq_nil_of_length_eq_zero hlen, List.nil_append]
  · obtain ⟨more, hspans, hnone⟩ := hspares.spans_eq ha hd hb hfollows
    rw [hspans, hnone (congrArg List.length hunits), List.append_nil]

/-- A region that is played to its end erases its own glyphs, the newest first, and leaves the ledger
and what is visible as it found them. Acts stand last first here. -/
theorem region_erases {pace : Pace} {region : List Token} {a b : Run Sheet} {base : Draft}
    (ha : Shaped a) (hd : Follows base a) (hrecorded : Recorded a)
    (hgo : a.play pace (.delete region) = .goes b) :
    ∃ typed held body erasing, (a.enterRegion region.length).playAll pace region = .goes typed ∧
      typed.suspend (.ofMillis pace.hold) = .goes held ∧
      held.eraseRegion pace a.ledger.length = .goes b ∧
      held.history = body ++ a.history ∧ b.history = erasing ++ held.history ∧
      held.ledger = (glyphsMade body).filter (· ∉ nodesTakenOff body) ++ a.ledger ∧
      (nodesTakenOff erasing).filter (· ∈ glyphsMade b.history) =
        ((glyphsMade body).filter (· ∉ nodesTakenOff body)).reverse ∧
      b.ledger = a.ledger ∧ b.surface.spans = a.surface.spans := by
  obtain ⟨typed, held, htyped, hhold, herase⟩ := play_delete_eq_goes hgo
  obtain ⟨hledger, hspans⟩ :=
    ledger_and_spans_of_region ha hd ((play_eq_strikeAll pace (.delete region) a).symm.trans hgo)
  -- up to the wait
  have hheld : a.strikeAll pace (.enter region.length :: (script region ++ [.hold])) =
      .goes held := by
    rw [strikeAll_cons, strike, Step.andThen_goes, strikeAll_append, ← playAll_eq_strikeAll, htyped,
      Step.andThen_goes, strikeAll_singleton]
    exact hhold
  have habove : base.ErasesAbove base.units.length
      (.enter region.length :: (script region ++ [.hold])) :=
    ⟨Stroke.noConfusion, Draft.erasesAbove_append.2
      ⟨Draft.erasesAbove_script (Nat.le_refl _) region, Stroke.noConfusion, trivial⟩⟩
  have hheldShaped := (shaped_strikeAll ha hd hheld).1
  have hheldRecorded := recorded_strikeAll hrecorded ha hheld
  obtain ⟨body, hbody, hheldLedger⟩ := ledger_strikeAll ha hrecorded habove hd hheld
  -- the erasure alone
  have herases := herase
  rw [eraseRegion, eraseChars_eq_strikeAll] at herases
  let units := held.ledger.length - a.ledger.length
  obtain ⟨erasing, herasing, hmade, htaken⟩ :=
    erased_strikeAll (hheldRecorded.made hheldShaped (.turn units))
      (hheldShaped.made (.turn units)) (fun x hx => List.eq_of_mem_replicate hx) herases
  change b.history = erasing ++ held.history at herasing
  change held.ledger = ((nodesTakenOff erasing).filter
    (· ∈ glyphsMade held.history)).reverse ++ b.ledger at htaken
  rw [hledger, hheldLedger] at htaken
  refine ⟨typed, held, body, erasing, htyped, hhold, herase, hbody, herasing, hheldLedger, ?_,
    hledger, hspans⟩
  rw [herasing, glyphsMade_append, hmade, List.nil_append, List.append_cancel_right htaken,
    List.reverse_reverse]

/-- While a region is played, what was visible in front of it is the beginning of what is. -/
theorem spans_prefix_of_mem_stops {pace : Pace} {region : List Token} {a : Run Sheet} {base : Draft}
    (ha : Shaped a) (hd : Follows base a) (hcancel : a.cancel = .never) {p : Stop Sheet}
    (hp : p ∈ a.stops pace (script [.delete region])) :
    a.surface.spans <+: p.run.surface.spans := by
  obtain ⟨before, x, after, q, hscript, hq, hw⟩ := behind_of_mem_stops hp
  rw [watched_never_eq hcancel] at hq
  have habove := Draft.erasesAbove_script (Nat.le_refl base.units.length) [.delete region]
  rw [hscript, ← List.singleton_append, ← List.append_assoc] at habove
  obtain ⟨hr, hfollows, hspares⟩ := Behind.spares ha hd (Draft.erasesAbove_append.1 habove).1
    (.inr ⟨before, x, _, rfl, hq, hw⟩)
  obtain ⟨more, hspans, -⟩ := hspares.spans_eq ha hd hr hfollows
  exact ⟨more, hspans.symm⟩

end Run

/-- **A region erases what it has typed, and nothing that was typed before it**, whatever it closes
and whatever regions are in it. When it has been played to its end, it has put on the ledger the
glyphs that were made in it and not taken off in it; these it has taken off, the newest one first;
and the ledger and the visible text are what they were in front of it. At each suspension point of
the region the text that was visible in front of it is the beginning of the text that is. And no
erasure ever finds the ledger empty. -/
theorem typeTokens_erases (pace : Pace) (cancel : Cancel) (ts region : List Token) :
    let before := typeTokens pace cancel ts Sheet.blank
    let out := typeTokens pace cancel (ts ++ [.delete region]) Sheet.blank
    let whole := typeTokens pace .never ts Sheet.blank
    (out.halt = none → before.halt = none ∧ ∃ typed held body erasing,
        (before.final.enterRegion region.length).playAll pace region = .goes typed ∧
        typed.suspend (.ofMillis pace.hold) = .goes held ∧
        held.eraseRegion pace before.final.ledger.length = .goes out.final ∧
        held.history.reverse = before.acts ++ body ∧ out.acts = before.acts ++ body ++ erasing ∧
        (nodesTakenOff erasing).filter (· ∈ glyphsMade out.acts) =
          ((glyphsMade body).filter (· ∉ nodesTakenOff body)).reverse ∧
        held.ledger = ((glyphsMade body).filter (· ∉ nodesTakenOff body)).reverse ++
          before.final.ledger ∧
        out.final.ledger = before.final.ledger ∧
        out.final.surface.spans = before.final.surface.spans) ∧
      (∃ inside, stopsOf pace (ts ++ [.delete region]) Sheet.blank =
          stopsOf pace ts Sheet.blank ++ inside ∧
        ∀ p ∈ inside, whole.final.surface.spans <+: p.run.surface.spans ∧
          whole.final.surface.text <+: p.run.surface.text) ∧
      ∀ done rest q, script (ts ++ [.delete region]) = done ++ .erase :: rest →
        (Run.begin pace cancel Sheet.blank).strikeAll pace done = .goes q → q.ledger ≠ [] := by
  intro before out whole
  have hregion : script [.delete region] = (Token.delete region).strokes := List.append_nil _
  refine ⟨fun hend => ?_, ?_, fun done rest q => Run.ledger_ne_nil_of_erase⟩
  · obtain ⟨b, hb, hbfinal⟩ := exists_goes_of_halt hend
    rw [script_append] at hb
    obtain ⟨a, ha, hgo⟩ := Run.strikeAll_append_eq_goes hb
    rw [hregion, ← Run.play_eq_strikeAll] at hgo
    have hbefore : before = ⟨none, a⟩ :=
      (typeTokens_eq pace cancel ts _).trans (congrArg Outcome.ofStep ha)
    obtain ⟨hshaped, hfollows⟩ :=
      Run.shaped_strikeAll (Run.shaped_begin pace cancel) (Run.follows_begin pace cancel) ha
    have hrecorded :=
      Run.recorded_strikeAll (Run.recorded_begin pace cancel) (Run.shaped_begin pace cancel) ha
    obtain ⟨typed, held, body, erasing, htyped, hhold, herase, hbody, herasing, hledger, htaken,
      hbLedger, hspans⟩ := Run.region_erases hshaped hfollows hrecorded hgo
    rw [hbefore, hbfinal]
    refine ⟨rfl, typed, held, body.reverse, erasing.reverse, htyped, hhold, herase, ?_, ?_, ?_, ?_,
      hbLedger, hspans⟩
    · rw [hbody, List.reverse_append]
      rfl
    · rw [Outcome.acts, hbfinal, herasing, hbody, List.reverse_append, List.reverse_append]
      rfl
    · rw [Outcome.acts, show out.final = b from hbfinal]
      simp only [glyphsMade_reverse, nodesTakenOff_reverse, List.mem_reverse, List.filter_reverse,
        htaken]
    · simp only [glyphsMade_reverse, nodesTakenOff_reverse, List.mem_reverse, List.filter_reverse,
        List.reverse_reverse, hledger]
  · have hstops := Run.stops_append pace (script ts) (script [.delete region])
      (r := .begin pace .never Sheet.blank) rfl
    rw [← script_append] at hstops
    refine ⟨_, hstops, fun p hp => ?_⟩
    cases ha : (Run.begin pace .never Sheet.blank).strikeAll pace (script ts) with
    | ends halt a =>
      rw [ha] at hp
      cases hp
    | goes a =>
      rw [ha] at hp
      obtain ⟨hshaped, hfollows⟩ :=
        Run.shaped_strikeAll (Run.shaped_begin pace .never) (Run.follows_begin pace .never) ha
      have hfirst := Run.spans_prefix_of_mem_stops hshaped hfollows
        (Run.cancel_strikeAll_never rfl ha) hp
      rw [show whole.final = a from final_of_goes ha]
      exact ⟨hfirst, hfirst.map _⟩

/-- A region that closes a scope that was open in front of it, types on behind that, and has a region
in it. -/
theorem typeTokens_erases_across :
    let ts : List Token := [.scopeStart .bold, .text ['a']]
    let region : List Token := [.text ['b'], .scopeEnd .bold, .delete [.text ['c']],
      .scopeStart .gray, .text ['d', 'e']]
    (typeTokens .steady .never (ts ++ [.delete region]) Sheet.blank).halt = none ∧
      (typeTokens .steady .never (ts ++ [.delete region]) Sheet.blank).final.ledger =
        (typeTokens .steady .never ts Sheet.blank).final.ledger ∧
      (typeTokens .steady .never ts Sheet.blank).final.ledger = [2] ∧
      nodesTakenOff (typeTokens .steady .never (ts ++ [.delete region]) Sheet.blank).acts =
        [4, 7, 6, 5, 3] := by
  intro ts region
  have hend : (typeTokens .steady .never (ts ++ [.delete region]) Sheet.blank).halt = none := by
    decide +kernel
  obtain ⟨-, _, _, _, _, -, -, -, -, -, -, -, hledger, -⟩ :=
    (typeTokens_erases .steady .never ts region).1 hend
  exact ⟨hend, hledger, by decide +kernel, by decide +kernel⟩

end Typist
