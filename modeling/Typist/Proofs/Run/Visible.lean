import Mathlib.Data.List.Induction
import Typist.Proofs.Run.Cancellation
import Typist.Proofs.Run.Shape

/-!
# What is visible of a run

What a run on a blank sheet shows is what it has typed and not erased, in the order in which it was
typed, each character in the style of the scopes that were open then. Only what was typed into a
scope that an erasure had taken off before is missing.

* `Run.shown` — the glyphs of the ledger that hang from the root, with their tags from the draft;
* `Run.TypedLoose` — a glyph that was typed while a scope was open that an erasure had taken off;
* `Run.Account` — what holds of a run behind strokes, and `Run.account_strikeAll`, that it does;
* `typeTokens_visible` — what is visible at each suspension point, and at the end.
-/

namespace Typist

namespace Run

/-! ## The visible glyphs are those of the ledger -/

/-- The glyphs of the ledger that hang from the root, in the order in which they were typed, each
with its value and with the tags that were open when it was typed, as a draft has them. -/
def shown (d : Draft) (r : Run Sheet) : List (Node × Char × List Tag) :=
  (r.ledger.zip d.units).reverse.filter fun e => r.surface.attached? e.1 = some true

section

variable {d : Draft} {r : Run Sheet}

/-- A ledger is as long as the draft that it follows. -/
theorem Follows.length_eq (h : Follows d r) : r.ledger.length = d.units.length :=
  h.units.length_eq

/-- Each entry of the ledger has its unit in the draft. -/
theorem Follows.map_fst_zip (h : Follows d r) :
    (r.ledger.zip d.units).map Prod.fst = r.ledger :=
  List.map_fst_zip (Nat.le_of_eq h.length_eq)

/-- What is in the ledger shows the character of its unit, in the scopes of that. -/
theorem Follows.bears (h : Follows d r) {u : Node} {unit : Char × List Tag}
    (hmem : (u, unit) ∈ r.ledger.zip d.units) : r.surface.Bears u unit :=
  List.forall₂_zip h.units hmem

/-- What is shown was made in the order in which it is shown. -/
theorem shown_sorted (hr : Shaped r) (hd : Follows d r) :
    (r.shown d).Pairwise fun e f => e.1 < f.1 := by
  refine List.Pairwise.filter _ (List.pairwise_reverse.2 ?_)
  have hsorted := hr.ledger_sorted
  rw [← hd.map_fst_zip, List.pairwise_map] at hsorted
  exact hsorted

/-- A visible glyph is one of the ledger that hangs from the root, with its tags. -/
theorem mem_glyphs_iff_mem_shown (hr : Shaped r) (hd : Follows d r) (e : Node × Char × List Tag) :
    e ∈ r.surface.glyphs ↔ e ∈ r.shown d := by
  obtain ⟨u, value, tags⟩ := e
  rw [shown, List.mem_filter, List.mem_reverse, decide_eq_true_eq]
  constructor
  · intro h
    obtain ⟨hk, around, hhangs, htags⟩ := (Sheet.mem_glyphs_iff hr.sound).1 h
    have hu : u ∈ r.ledger := hr.mem_ledger.2 ⟨⟨value, hk⟩, by rw [hhangs.1]; simp⟩
    rw [← hd.map_fst_zip, List.mem_map] at hu
    obtain ⟨⟨_, value', tags'⟩, hzip, rfl⟩ := hu
    obtain ⟨hk', within, hleans, htags'⟩ := hd.bears hzip
    -- the glyph has one value, and one way up to the root
    cases hhangs.eq_of_leans hr.sound hleans
    have hvalue : value = value' := by
      have hsame := hk.symm.trans hk'
      exact Kind.glyph.inj hsame
    have hsame : tags = tags' := by
      have hmap := htags.symm.trans htags'
      exact List.map_injective_iff.2 (Option.some_injective _) hmap
    subst hvalue hsame
    refine ⟨hzip, ?_⟩
    rw [Sheet.attached?_eq_some_true_iff hr.sound hleans.1.1]
    exact .inr ⟨_, hhangs⟩
  · rintro ⟨hzip, hroot⟩
    exact (hd.bears hzip).mem_glyphs hr.sound hroot

/-- The visible glyphs are the glyphs of the ledger that hang from the root, in the order in which
they were typed. -/
theorem glyphs_eq_shown (hr : Shaped r) (hd : Follows d r) : r.surface.glyphs = r.shown d := by
  have hglyphs := Sheet.glyphs_sorted hr.sound
  have hshown := shown_sorted hr hd
  have hnodup {l : List (Node × Char × List Tag)} (h : l.Pairwise fun e f => e.1 < f.1) :
      l.Nodup := h.imp fun hlt heq => Nat.ne_of_lt hlt (congrArg Prod.fst heq)
  have hperm := (List.perm_ext_iff_of_nodup (hnodup hglyphs) (hnodup hshown)).2
    (mem_glyphs_iff_mem_shown hr hd)
  refine hperm.eq_of_pairwise ?_ hglyphs hshown
  intro e f _ _ hlt hgt
  exact absurd hgt (Nat.lt_asymm hlt)

end

/-! ## What is missing

By induction on the strokes: a scope that is open and hangs nowhere was taken off by an erasure,
since closing takes off only what it closes; and a glyph of the ledger hangs from the root, unless
such a scope was open when it was typed. -/

/-- An erasure among these strokes has emptied a scope that was open, and taken it off. -/
def Unhung (pace : Pace) (start : Run Sheet) (done : List Stroke) (n : Node) : Prop :=
  ∃ before after q, done = before ++ .erase :: after ∧ start.strikeAll pace before = .goes q ∧
    n ∈ q.scopes ∧ q.surface.parent? n ≠ none ∧ (q.made .erase).surface.parent? n = none ∧
    (q.made .erase).surface.childCount n = 0

/-- A glyph was typed by one of these strokes while a scope was open that an erasure before it had
emptied and taken off. -/
def TypedLoose (pace : Pace) (start : Run Sheet) (done : List Stroke) (u : Node) : Prop :=
  ∃ before value after q n, done = before ++ .type value :: after ∧
    start.strikeAll pace before = .goes q ∧ (q.createGlyph value).1 = u ∧ n ∈ q.scopes ∧
    Unhung pace start before n

section

variable {pace : Pace} {start r r' : Run Sheet} {done : List Stroke} {n u : Node}

/-- What was taken off stays off. -/
theorem Unhung.append (h : Unhung pace start done n) (more : List Stroke) :
    Unhung pace start (done ++ more) n := by
  obtain ⟨before, after, q, rfl, h⟩ := h
  exact ⟨before, after ++ more, q, by rw [List.append_assoc, List.cons_append], h⟩

/-- What was typed into the void stays so. -/
theorem TypedLoose.append (h : TypedLoose pace start done u) (more : List Stroke) :
    TypedLoose pace start (done ++ more) u := by
  obtain ⟨before, value, after, q, n, rfl, h⟩ := h
  exact ⟨before, value, after ++ more, q, n, by rw [List.append_assoc, List.cons_append], h⟩

/-- Without an erasure no scope is taken off while it is open. -/
theorem not_unhung (h : .erase ∉ done) : ¬Unhung pace start done n := by
  rintro ⟨before, after, q, rfl, -⟩
  exact h (List.mem_append_right _ List.mem_cons_self)

/-- Nothing is typed into the void before something was erased. -/
theorem not_typedLoose (h : .erase ∉ done) : ¬TypedLoose pace start done u := by
  rintro ⟨before, value, after, q, n, rfl, -, -, -, hunhung⟩
  exact not_unhung (fun hmem => h (List.mem_append_left _ hmem)) hunhung

/-- Why something hangs nowhere, in a run on a sheet that has done these strokes. -/
structure Account (pace : Pace) (start : Run Sheet) (done : List Stroke) (r : Run Sheet) :
    Prop where
  /-- an open scope that hangs nowhere was taken off by an erasure -/
  unhung : ∀ n ∈ r.scopes, r.surface.parent? n = none → Unhung pace start done n
  /-- a glyph of the ledger hangs from the root, or did not when it was typed -/
  hangs : ∀ u ∈ r.ledger, (∃ around, r.surface.Hangs (u :: around)) ∨
    TypedLoose pace start done u

namespace Account

/-- Waits change nothing of the account. -/
theorem of_waits (h : Account pace start done r) (hw : Waits r r') :
    Account pace start done r' where
  unhung := by
    rw [hw.surface, hw.scopes]
    exact h.unhung
  hangs := by
    rw [hw.surface, hw.ledger]
    exact h.hangs

/-- The account is right when a character is typed. -/
theorem type (h : Account pace start done r) (hr : Shaped r)
    (hgo : start.strikeAll pace done = .goes r) (value : Char) :
    Account pace start (done ++ [.type value]) (r.made (.type value)) where
  unhung := by
    intro n hn hp
    have hp' : (r.surface.hang r.current (.glyph value)).parent? n = none := hp
    rw [Sheet.parent?_hang_of_lt hr.accepts_current.lt_size (hr.leans.lt_size n hn)] at hp'
    exact (h.unhung n hn hp').append _
  hangs := by
    have hlt := hr.accepts_current.lt_size
    rintro u (_ | ⟨_, hu⟩)
    · -- the new glyph hangs from the root if all open scopes do
      by_cases hall : ∀ n ∈ r.scopes, r.surface.parent? n ≠ none
      · refine .inl ⟨r.scopes, ?_, (hr.leans.hangs hall).hang hlt⟩
        exact (Sheet.parent?_hang hlt _).trans (if_pos rfl)
      · obtain ⟨n, hn⟩ := not_forall.1 hall
        obtain ⟨hn, hp⟩ := Classical.not_imp.1 hn
        have hunhung := h.unhung n hn (Classical.not_not.1 hp)
        exact .inr ⟨done, value, [], r, n, rfl, hgo, rfl, hn, hunhung⟩
    · rcases h.hangs u hu with ⟨around, hhangs⟩ | hloose
      · exact .inl ⟨around, hhangs.hang hlt⟩
      · exact .inr (hloose.append _)

/-- The account is right when a scope is opened. -/
theorem opening (h : Account pace start done r) (hr : Shaped r) (tag : Tag) :
    Account pace start (done ++ [.opening tag]) (r.made (.opening tag)) where
  unhung := by
    have hlt := hr.accepts_current.lt_size
    intro n hn hp
    have hp' : (r.surface.hang r.current (.container tag)).parent? n = none := hp
    rw [Sheet.parent?_hang hlt] at hp'
    split at hp'
    · cases hp'
    · rename_i hne
      rcases List.mem_cons.1 hn with hnew | hn
      · exact absurd hnew hne
      · exact (h.unhung n hn hp').append _
  hangs := by
    intro u hu
    rcases h.hangs u hu with ⟨around, hhangs⟩ | hloose
    · exact .inl ⟨around, hhangs.hang hr.accepts_current.lt_size⟩
    · exact .inr (hloose.append _)

/-- The account is right when scopes are closed. -/
theorem closing (h : Account pace start done r) (hr : Shaped r) (tag : Tag) :
    Account pace start (done ++ [.closing tag]) (r.made (.closing tag)) := by
  obtain ⟨closed, gone, hscopes, hshed, hgone, hledger, -⟩ := r.made_closing tag hr.sound
  refine ⟨?_, ?_⟩
  · intro n hn hp
    have hmem : n ∈ r.scopes := by
      rw [hscopes]
      exact List.mem_append_right _ hn
    -- what was taken off was closed, and is not open any more
    have hkept : n ∉ gone := by
      intro hng
      have hsorted := hr.scopes_sorted
      rw [hscopes, List.pairwise_append] at hsorted
      exact Nat.lt_irrefl _ (hsorted.2.2 n (hgone n hng) n hn)
    rw [hshed.parent?_eq hr.sound, if_neg hkept] at hp
    exact (h.unhung n hmem hp).append _
  · intro u hu
    rw [hledger] at hu
    rcases h.hangs u hu with ⟨around, hhangs⟩ | hloose
    · refine .inl ⟨around, hhangs.shed hshed hr.sound fun hug => hr.not_mem_scopes hu ?_⟩
      rw [hscopes]
      exact List.mem_append_left _ (hgone u hug)
    · exact .inr (hloose.append _)

/-- The account is right when something is erased. -/
theorem erase (h : Account pace start done r) (hr : Shaped r)
    (hgo : start.strikeAll pace done = .goes r) :
    Account pace start (done ++ [.erase]) (r.made .erase) := by
  cases hl : r.ledger with
  | nil =>
    rw [made_erase_of_nil hl]
    exact ⟨fun n hn hp => (h.unhung n hn hp).append _, by simp [hl]⟩
  | cons node ledger =>
    obtain ⟨gone, hshed, hgone, hscopes, hledger, -⟩ := hr.made_erase hl
    refine ⟨?_, ?_⟩
    · intro n hn hp
      rw [hscopes] at hn
      -- a scope that hangs nowhere now was taken off just now, or had been before
      by_cases hng : n ∈ node :: gone
      · refine ⟨done, [], r, rfl, hgo, hn, hshed.parent?_ne_none hr.sound n hng, hp, ?_⟩
        rw [Sheet.childCount, hshed.lastFirst_of_mem hr.sound n hng, List.length_nil]
      · rw [hshed.parent?_eq hr.sound, if_neg hng] at hp
        exact (h.unhung n hn hp).append _
    · intro u hu
      rw [hledger] at hu
      have hmem : u ∈ r.ledger := by
        rw [hl]
        exact List.mem_cons_of_mem _ hu
      rcases h.hangs u hmem with ⟨around, hhangs⟩ | hloose
      · exact .inl ⟨around, hhangs.shed hshed hr.sound (hgone u hu)⟩
      · exact .inr (hloose.append _)

/-- One more stroke. -/
theorem made (h : Account pace start done r) (hr : Shaped r)
    (hgo : start.strikeAll pace done = .goes r) (x : Stroke) :
    Account pace start (done ++ [x]) (r.made x) := by
  cases x with
  | type value => exact h.type hr hgo value
  | opening tag => exact h.opening hr tag
  | closing tag => exact h.closing hr tag
  | erase => exact h.erase hr hgo
  | pause | enter | turn | hold =>
    refine ⟨fun n hn hp => (h.unhung n hn hp).append _, fun u hu => ?_⟩
    rcases h.hangs u hu with hhangs | hloose
    · exact .inl hhangs
    · exact .inr (hloose.append _)

end Account

/-- Whatever strokes a run does that begins on a blank sheet, the account holds. -/
theorem account_strikeAll (pace : Pace) (cancel : Cancel) {done : List Stroke} {r : Run Sheet}
    (hgo : (Run.begin pace cancel .blank).strikeAll pace done = .goes r) :
    Account pace (.begin pace cancel .blank) done r := by
  induction done using List.reverseRecOn generalizing r with
  | nil =>
    cases hgo
    exact ⟨by simp [Run.begin], by simp [Run.begin]⟩
  | append_singleton done x ih =>
    obtain ⟨q, hq, hx⟩ := strikeAll_append_eq_goes hgo
    rw [strikeAll_singleton] at hx
    have hshaped := (shaped_strikeAll (shaped_begin _ _) (follows_begin _ _) hq).1
    exact ((ih hq).made hshaped hq x).of_waits (waits_of_strike hx)

end

/-! ## What is visible -/

/-- A run that has just done the last of these strokes, and perhaps waits behind it. -/
def Behind {σ : Type} [Surface σ] (pace : Pace) (start : Run σ) (done : List Stroke) (r : Run σ) :
    Prop :=
  (done = [] ∧ r = start) ∨
    ∃ before x q, done = before ++ [x] ∧ start.strikeAll pace before = .goes q ∧ Waits (q.made x) r

/-- What is visible of a run that began on a blank sheet and has done these strokes, told by the
draft that they amount to. -/
structure Shows (pace : Pace) (start : Run Sheet) (done : List Stroke) (r : Run Sheet) :
    Prop where
  /-- the tags of the open scopes are those of the draft -/
  tags : r.scopes.map r.surface.tag? = (({} : Draft).after done).tags.map some
  /-- the ledger holds the characters of the draft -/
  units : List.Forall₂ (fun u unit => r.surface.kind u = .glyph unit.1) r.ledger
    (({} : Draft).after done).units
  order : r.ledger.Pairwise (· > ·)
  /-- those that hang from the root are visible, in order, in the style of their tags -/
  spans : r.surface.spans =
    (r.shown (({} : Draft).after done)).map fun (_, value, tags) => (value, Style.inside tags)
  /-- those that do not were typed into a scope that was taken off -/
  missing : ∀ u ∈ r.ledger, r.surface.attached? u ≠ some true → TypedLoose pace start done u
  erased_le : r.summary.erased ≤ r.summary.typed
  length_le : r.surface.spans.length ≤ r.summary.net

section

variable {pace : Pace} {cancel : Cancel} {done : List Stroke} {r : Run Sheet}

/-- What holds of a run behind strokes. -/
theorem Behind.account (h : Behind pace (.begin pace cancel .blank) done r) :
    Shaped r ∧ Follows (({} : Draft).after done) r ∧
      Account pace (.begin pace cancel .blank) done r := by
  rcases h with ⟨rfl, rfl⟩ | ⟨before, x, q, rfl, hq, hw⟩
  · exact ⟨shaped_begin _ _, follows_begin _ _, account_strikeAll pace cancel rfl⟩
  · obtain ⟨hr, hd⟩ := shaped_strikeAll (shaped_begin _ _) (follows_begin _ _) hq
    have ha := account_strikeAll pace cancel hq
    refine ⟨(hr.made x).of_waits hw, ?_, (ha.made hr hq x).of_waits hw⟩
    rw [Draft.after_append]
    exact (hd.made hr x).of_waits hw

/-- A glyph of the ledger hangs from the root, or was typed into a scope that was taken off. -/
theorem Account.attached?_or {start : Run Sheet} (h : Account pace start done r) (hr : Shaped r)
    {u : Node} (hu : u ∈ r.ledger) :
    r.surface.attached? u = some true ∨ TypedLoose pace start done u := by
  refine (h.hangs u hu).imp_left fun hhangs => ?_
  exact (Sheet.attached?_eq_some_true_iff hr.sound (hr.lt_size_of_mem_ledger hu)).2 (.inr hhangs)

/-- No more is shown than was typed and not erased. -/
theorem length_shown_le {d : Draft} (hr : Shaped r) (hd : Follows d r) :
    (r.shown d).length ≤ r.summary.net := by
  have hnet := hr.net
  have hzip : (r.ledger.zip d.units).reverse.length = r.ledger.length := by
    rw [List.length_reverse, List.length_zip, hd.length_eq, Nat.min_self]
  have hle : (r.shown d).length ≤ (r.ledger.zip d.units).reverse.length :=
    List.length_filter_le _ _
  rw [Summary.net]
  omega

/-- What a sheet shows is the units that are shown, each in the style of its scopes. -/
theorem spans_eq_shown {d : Draft} (hr : Shaped r) (hd : Follows d r) :
    r.surface.spans = (r.shown d).map fun (_, value, tags) => (value, Style.inside tags) := by
  rw [Sheet.spans_eq, glyphs_eq_shown hr hd]

/-- Behind strokes a blank sheet shows what they leave. -/
theorem Behind.shows (h : Behind pace (.begin pace cancel .blank) done r) :
    Shows pace (.begin pace cancel .blank) done r := by
  obtain ⟨hr, hd, ha⟩ := h.account
  refine ⟨hd.tags, hd.units.imp fun _ _ hbears => hbears.1, hr.ledger_sorted,
    spans_eq_shown hr hd, ?_, ?_, ?_⟩
  · intro u hu hne
    exact (ha.attached?_or hr hu).resolve_left hne
  · have hnet := hr.net
    omega
  · rw [spans_eq_shown hr hd, List.length_map]
    exact length_shown_le hr hd

/-- Without an erasure everything that was typed is visible. -/
theorem Behind.shown_eq (h : Behind pace (.begin pace cancel .blank) done r)
    (herase : .erase ∉ done) :
    r.shown (({} : Draft).after done) =
      (r.ledger.zip (({} : Draft).after done).units).reverse := by
  obtain ⟨hr, hd, ha⟩ := h.account
  refine List.filter_eq_self.2 fun e he => decide_eq_true ?_
  have hu : e.1 ∈ r.ledger := by
    rw [← hd.map_fst_zip]
    exact List.mem_map_of_mem (List.mem_reverse.1 he)
  exact (ha.attached?_or hr hu).resolve_right (not_typedLoose herase)

/-- Where nothing was erased, all that was typed is shown. -/
theorem Behind.length_spans (h : Behind pace (.begin pace cancel .blank) done r)
    (herase : .erase ∉ done) : r.surface.spans.length = r.summary.net := by
  obtain ⟨hr, hd, -⟩ := h.account
  have hnet := hr.net
  rw [spans_eq_shown hr hd, h.shown_eq herase, List.length_map, List.length_reverse,
    List.length_zip, hd.length_eq, Nat.min_self, ← hd.length_eq, Summary.net]
  omega

/-- Where nothing was erased, the text is what was typed, in order. -/
theorem Behind.text_eq (h : Behind pace (.begin pace cancel .blank) done r)
    (herase : .erase ∉ done) :
    r.surface.text = ((({} : Draft).after done).units.map Prod.fst).reverse := by
  obtain ⟨hr, hd, -⟩ := h.account
  have hzip : (r.ledger.zip (({} : Draft).after done).units).map Prod.snd =
      (({} : Draft).after done).units :=
    List.map_snd_zip (Nat.le_of_eq hd.length_eq.symm)
  have hmap : r.surface.text =
      ((r.ledger.zip (({} : Draft).after done).units).map Prod.snd).reverse.map Prod.fst := by
    rw [Sheet.text, spans_eq_shown hr hd, h.shown_eq herase, List.map_map, ← List.map_reverse,
      List.map_map]
    rfl
  rw [hmap, hzip, List.map_reverse]

end

/-! ## Where a run can be looked at -/

/-- At a suspension point a run is behind the stroke that is about to wait. -/
theorem behind_of_mem_stops {σ : Type} [Surface σ] {pace : Pace} {xs : List Stroke} {r : Run σ}
    {p : Stop σ} (hp : p ∈ r.stops pace xs) :
    ∃ before x after, ∃ q : Run σ, xs = before ++ x :: after ∧
      (r.watched .never).strikeAll pace before = .goes (q.watched .never) ∧
      Waits ((q.watched .never).made x) p.run := by
  induction xs generalizing r with
  | nil => cases hp
  | cons x xs ih =>
    unfold stops at hp
    cases hw : r.wait? pace x with
    | none =>
      rw [hw] at hp
      obtain ⟨before, y, after, q, rfl, hq, hmade⟩ := ih hp
      refine ⟨x :: before, y, after, q, rfl, ?_, hmade⟩
      rw [strikeAll_cons, strike_eq, wait?_watched, hw, ← watched_made]
      exact hq
    | some drawn =>
      obtain ⟨delay?, generator⟩ := drawn
      rw [hw] at hp
      cases delay? with
      | none => cases hp
      | some delay =>
        let stop : Stop σ := { run := { r.made x with generator }, delay }
        rcases List.mem_cons.1 hp with rfl | hp
        · refine ⟨[], x, xs, r, rfl, rfl, ?_⟩
          rw [← watched_made]
          exact ⟨rfl, rfl, rfl, rfl, rfl, [], rfl, by simp⟩
        · obtain ⟨before, y, after, q, rfl, hq, hmade⟩ := ih hp
          refine ⟨x :: before, y, after, q, rfl, ?_, hmade⟩
          have hgo : ((r.made x).watched .never).suspendDrawn (some delay, generator) =
              .goes (stop.asked.watched .never) := suspend_of_not_isEnd (isEnd_never stop)
          rw [strikeAll_cons, strike_eq, wait?_watched, hw, ← watched_made]
          dsimp only
          rw [hgo]
          exact hq

/-- When a run has done all it will do, it is behind the stroke that ended it, or behind all. -/
theorem exists_behind_of_strikeAll {σ : Type} [Surface σ] (pace : Pace) (start : Run σ)
    (xs : List Stroke) :
    ∃ done rest, xs = done ++ rest ∧ Behind pace start done (start.strikeAll pace xs).run ∧
      ((Outcome.ofStep (start.strikeAll pace xs)).halt = none → rest = []) := by
  cases hgo : start.strikeAll pace xs with
  | goes r =>
    refine ⟨xs, [], (List.append_nil _).symm, ?_, fun _ => rfl⟩
    induction xs using List.reverseRecOn with
    | nil =>
      cases hgo
      exact .inl ⟨rfl, rfl⟩
    | append_singleton xs x =>
      obtain ⟨q, hq, hx⟩ := strikeAll_append_eq_goes hgo
      rw [strikeAll_singleton] at hx
      exact .inr ⟨xs, x, q, rfl, hq, waits_of_strike hx⟩
  | ends halt r =>
    obtain ⟨before, x, after, q, rfl, hq, hx⟩ := strikeAll_eq_ends hgo
    have hw := strike_waits pace x q
    rw [hx] at hw
    refine ⟨before ++ [x], after, by simp, .inr ⟨before, x, q, rfl, hq, hw⟩, ?_⟩
    intro hhalt
    cases hhalt

/-- Tokens without a region erase nothing. -/
theorem erase_not_mem_script {ts : List Token} (h : ∀ inner, .delete inner ∉ ts) :
    .erase ∉ script ts := by
  induction ts with
  | nil => exact List.not_mem_nil
  | cons t ts ih =>
    have hrest := ih fun inner hmem => h inner (List.mem_cons_of_mem _ hmem)
    rw [script, List.mem_append]
    rintro (ht | hts)
    · cases t with
      | delete inner => exact h inner List.mem_cons_self
      | text value => simp [Token.strokes] at ht
      | pause | scopeStart | scopeEnd => simp [Token.strokes] at ht
    · exact hrest hts

end Run

/-- **What is visible is what was typed and not erased.** At each suspension point of a run on a
blank sheet, and where the run ends, it has done some of the strokes of its tokens — all of them, if
nothing ended it early — and it shows what these amount to. If there is no region among the tokens,
then everything that was typed is visible, and at the end that is the texts of the tokens. -/
theorem typeTokens_visible (pace : Pace) (cancel : Cancel) (ts : List Token) :
    let out := typeTokens pace cancel ts Sheet.blank
    let stops := stopsOf pace ts Sheet.blank
    (∃ done rest, script ts = done ++ rest ∧ (out.halt = none → rest = []) ∧
        Run.Behind pace (.begin pace cancel .blank) done out.final ∧
        Run.Shows pace (.begin pace cancel .blank) done out.final) ∧
      (∀ p ∈ stops, ∃ done rest, script ts = done ++ rest ∧
        Run.Behind pace (.begin pace .never .blank) done p.run ∧
        Run.Shows pace (.begin pace .never .blank) done p.run) ∧
      ((∀ inner, .delete inner ∉ ts) →
        (∀ p ∈ stops, p.run.surface.spans.length = p.run.summary.net) ∧
          out.final.surface.spans.length = out.final.summary.net ∧
          (out.halt = none → out.final.surface.text = leftText ts)) := by
  intro out stops
  obtain ⟨done, rest, hdone, hend, hhalt⟩ :=
    Run.exists_behind_of_strikeAll pace (.begin pace cancel Sheet.blank) (script ts)
  have hout : out = .ofStep ((Run.begin pace cancel Sheet.blank).strikeAll pace (script ts)) :=
    typeTokens_eq pace cancel ts Sheet.blank
  rw [← Outcome.final_ofStep, ← hout] at hend
  rw [← hout] at hhalt
  have hstops : ∀ p ∈ stops, ∃ done rest, script ts = done ++ rest ∧
      Run.Behind pace (.begin pace .never Sheet.blank) done p.run := by
    intro p hp
    obtain ⟨before, x, after, q, hts, hq, hw⟩ := Run.behind_of_mem_stops hp
    exact ⟨before ++ [x], after, by simp [hts], .inr ⟨before, x, _, rfl, hq, hw⟩⟩
  refine ⟨⟨done, rest, hdone, hhalt, hend, hend.shows⟩, ?_, ?_⟩
  · intro p hp
    obtain ⟨done, rest, hts, hbehind⟩ := hstops p hp
    exact ⟨done, rest, hts, hbehind, hbehind.shows⟩
  · intro hdelete
    have hscript := Run.erase_not_mem_script hdelete
    have herase {done rest : List Stroke} (hts : script ts = done ++ rest) : .erase ∉ done := by
      rw [hts] at hscript
      exact fun hmem => hscript (List.mem_append_left _ hmem)
    refine ⟨?_, hend.length_spans (herase hdone), ?_⟩
    · intro p hp
      obtain ⟨done, rest, hts, hbehind⟩ := hstops p hp
      exact hbehind.length_spans (herase hts)
    · intro hnone
      cases hhalt hnone
      rw [List.append_nil] at hdone
      obtain ⟨fresh, hunits, hfresh⟩ := ({} : Draft).units_after_script ts
      rw [hend.text_eq (herase (hdone.trans (List.append_nil _).symm)), ← hdone, hunits,
        List.append_nil, hfresh, List.reverse_reverse]

end Typist
