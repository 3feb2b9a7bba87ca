import Typist.Listing
import Typist.Proofs.Show.Staging

/-!
# The text that stays

A run is told by its clock only that a wait is over, and by its draws only how long to wait; what it
asks of its surface every surface that keeps a sheet answers alike. So when two runs of one list of
tokens come to their ends, they have done and counted the same and leave the same sheet, on whatever
they typed and however fast.

A listing of final texts and a show are two such runs for each slide: what is printed is what the
projector holds.

* `Outcome.calls` — what a run did to its surface;
* `Listing.finalTexts_eq` — a listing of final texts holds the texts of all slides;
* `typeTokens_timeless` — neither time nor the surface has a part in the result.
-/

namespace Typist

/-! ## Runs on two surfaces -/

/-- What a run did to its surface, in order. -/
def Outcome.calls {σ : Type} (o : Outcome σ) : List Act :=
  o.acts.filter (·.delay?.isNone)

/-- Acts that differ in the lengths of their waits only do the same to a surface. -/
theorem filter_eq_of_timeless {as bs : List Act} (h : as.map Act.timeless = bs.map Act.timeless) :
    as.filter (·.delay?.isNone) = bs.filter (·.delay?.isNone) := by
  have hcalls (acts : List Act) :
      (acts.map Act.timeless).filter (·.delay?.isNone) = acts.filter (·.delay?.isNone) := by
    induction acts with
    | nil => rfl
    | cons act acts ih =>
      cases act with
      | wait delay => exact ih
      | glyph node value => exact congrArg (Act.glyph node value :: ·) ih
      | container node tag => exact congrArg (Act.container node tag :: ·) ih
      | append parent child => exact congrArg (Act.append parent child :: ·) ih
      | remove parent child => exact congrArg (Act.remove parent child :: ·) ih
  rw [← hcalls as, h, hcalls bs]

/-- What two runs have in common that differ in time, and in what they type on. -/
structure SameResult {σ τ : Type} (sheet : σ → Sheet) (sheet' : τ → Sheet) (o : Outcome σ)
    (o' : Outcome τ) : Prop where
  /-- they did the same to their surfaces -/
  calls : o.calls = o'.calls
  /-- they waited at the same points -/
  acts : o.acts.map Act.timeless = o'.acts.map Act.timeless
  /-- they leave the same sheet -/
  sheet : sheet o.final.surface = sheet' o'.final.surface
  /-- they counted the same -/
  counts : o.final.summary.counts = o'.final.summary.counts

theorem sameResult_of_sheet {σ τ : Type} [Surface σ] [Surface τ] {sheet : σ → Sheet}
    {sheet' : τ → Sheet} (h : Keeps sheet) (h' : Keeps sheet') {pace pace' : Pace}
    {cancel cancel' : Cancel} {ts : List Token} {s : σ} {s' : τ} (hsheet : sheet s = sheet' s')
    (hend : (typeTokens pace cancel ts s).halt = none)
    (hend' : (typeTokens pace' cancel' ts s').halt = none) :
    SameResult sheet sheet' (typeTokens pace cancel ts s) (typeTokens pace' cancel' ts s') := by
  have hon := typeTokens_onSheet h pace cancel ts s
  have hon' := typeTokens_onSheet h' pace' cancel' ts s'
  rw [← hsheet] at hon'
  -- on the one sheet that both keep, the two runs differ in time only
  have hsame := timeless_final (.ofSeed 0) ((congrArg Outcome.halt hon).trans hend)
    ((congrArg Outcome.halt hon').trans hend')
  rw [hon, hon'] at hsame
  have hhistory : (typeTokens pace cancel ts s).final.history.map Act.timeless =
      (typeTokens pace' cancel' ts s').final.history.map Act.timeless :=
    congrArg Run.history hsame
  have hacts : (typeTokens pace cancel ts s).acts.map Act.timeless =
      (typeTokens pace' cancel' ts s').acts.map Act.timeless := by
    rw [Outcome.acts, Outcome.acts, List.map_reverse, List.map_reverse, hhistory]
  exact ⟨filter_eq_of_timeless hacts, hacts, congrArg Run.surface hsame,
    congrArg Run.summary hsame⟩

/-! ## Listings -/

/-- A listing of final texts holds the texts of all slides, and each of them was typed to its end. -/
theorem Listing.finalTexts_eq {pace : Pace} {slides : List Slide} {texts : List Text}
    (h : finalTexts pace slides = some texts) :
    texts = slides.map (fun s => (s.play pace .never).final.surface.text) ∧
      ∀ s ∈ slides, (s.play pace .never).halt = none := by
  induction slides generalizing texts with
  | nil =>
    cases h
    exact ⟨rfl, fun s hs => nomatch hs⟩
  | cons s slides ih =>
    simp only [finalTexts] at h
    split at h
    · cases h
    · rename_i hhalt
      obtain ⟨rest, hrest, rfl⟩ := Option.map_eq_some_iff.1 h
      obtain ⟨rfl, hall⟩ := ih hrest
      exact ⟨rfl, List.forall_mem_cons.2 ⟨halt_never hhalt, hall⟩⟩

/-! ## Shows -/

section

variable {pace pace' : Pace} {viewer : Viewer} {size : Size} {slides : List Slide}
  {fails : Nat → Nat → Bool} {s t : Show} {ms : List Show.Move}

/-- The surface that a run leaves on a blank sheet is what its acts make of one. -/
theorem Scene.surface_eq (pace : Pace) (s : Slide) :
    (Scene.ofSlide pace s).run.final.surface =
      (Scene.ofSlide pace s).run.acts.foldl (fun sheet act => act.onto sheet) .blank := by
  have hrun : (Scene.ofSlide pace s).run.final =
      ((Run.begin pace .never Sheet.blank).strikeAll pace (script (tokensToPlay s.body))).run := by
    rw [← Outcome.final_ofStep]
    exact congrArg Outcome.final (typeTokens_eq pace .never _ _)
  have hrecord : Run.OnRecord Sheet.blank (Scene.ofSlide pace s).run.final := by
    rw [hrun]
    exact Run.OnRecord.strikeAll pace _ ⟨rfl, rfl⟩
  rw [hrecord.surface, Outcome.acts, List.foldl_reverse]

/-- When a slide of a show has been typed, the projector holds the sheet of a whole run. -/
theorem Show.exists_typed (hs : Show.begin? pace viewer size slides fails = some s)
    (ht : Show.moves? ms s = some t) (htyped : t.stage.isTyped) :
    ∃ slide, slides[t.behind]? = some slide ∧ (slide.play pace .never).halt = none ∧
      t.projector.sheet = (slide.play pace .never).final.surface := by
  have hcourse := Show.inCourse_of_moves? hs ht
  have hscene := hcourse.deck.getElem?
  rw [List.getElem?_map] at hscene
  obtain ⟨slide, hslide, hon⟩ := Option.map_eq_some_iff.1 hscene
  refine ⟨slide, hslide, ?_, ?_⟩
  · exact (congrArg (·.run.halt) hon).trans (hcourse.script.typed htyped)
  · rw [hcourse.script.sheet_of_isTyped htyped, ← hon, ← Scene.surface_eq]
    rfl

/-- What a listing of final texts has for the slide that has been typed in a show. -/
theorem Show.finalTexts_getElem? (hs : Show.begin? pace viewer size slides fails = some s)
    (ht : Show.moves? ms s = some t) (htyped : t.stage.isTyped) {texts : List Text}
    (htexts : Listing.finalTexts pace' slides = some texts) :
    texts[t.behind]? = some t.projector.sheet.text := by
  obtain ⟨slide, hslide, hhalt, hsheet⟩ := Show.exists_typed hs ht htyped
  obtain ⟨rfl, hall⟩ := Listing.finalTexts_eq htexts
  have hsame := sameResult_of_sheet keeps_self keeps_self rfl
    (hall slide (List.mem_of_getElem? hslide)) hhalt
  rw [List.getElem?_map, hslide, hsheet]
  exact congrArg (some ·.text) hsame.sheet

end

/-- **The result of a run depends neither on time nor on what it is typed on.** Two runs of one list
of tokens, on surfaces that keep the same sheet, at any two paces and seeds and however they are
watched, have done and counted the same and leave the same sheet if both come to their ends. Sheets
keep themselves, and projectors their sheets, whichever pictures cannot be drawn. In particular, when
a slide of a show has been typed, after whatever moves, what a listing of final texts prints for it is
the text of the sheet that the projector holds. -/
theorem typeTokens_timeless :
    (∀ {σ τ : Type} [Surface σ] [Surface τ] {sheet : σ → Sheet} {sheet' : τ → Sheet},
      Keeps sheet → Keeps sheet' → ∀ (pace pace' : Pace) (cancel cancel' : Cancel)
        (ts : List Token) (s : σ) (s' : τ), sheet s = sheet' s' →
        (typeTokens pace cancel ts s).halt = none → (typeTokens pace' cancel' ts s').halt = none →
        SameResult sheet sheet' (typeTokens pace cancel ts s) (typeTokens pace' cancel' ts s')) ∧
    Keeps (fun s : Sheet => s) ∧ Keeps Projector.sheet ∧
    (∀ (pace pace' : Pace) (viewer : Viewer) (size : Size) (slides : List Slide)
      (fails : Nat → Nat → Bool) (ms : List Show.Move) (s t : Show) (printed : Text),
      Show.begin? pace viewer size slides fails = some s → Show.moves? ms s = some t →
      t.stage.isTyped → Listing.render .final pace' slides = some printed →
      ∃ texts, printed = Listing.blocks ((slides.map (·.title)).zip texts) ∧
        texts.length = slides.length ∧ texts[t.behind]? = some t.projector.sheet.text) := by
  refine ⟨fun h h' pace pace' cancel cancel' ts s s' hsheet => sameResult_of_sheet h h' hsheet,
    keeps_self, Projector.keeps_sheet, ?_⟩
  intro pace pace' viewer size slides fails ms s t printed hs ht htyped hprinted
  obtain ⟨texts, htexts, rfl⟩ := Option.map_eq_some_iff.1 hprinted
  have hlength : texts.length = slides.length := by
    rw [(Listing.finalTexts_eq htexts).1, List.length_map]
  exact ⟨texts, rfl, hlength, Show.finalTexts_getElem? hs ht htyped htexts⟩

/-- A sheet at an even pace; and a projector that can draw every other picture only, at a pace with
draws, with a cancellation that comes too late. And the second slide of a show on a screen that gets
smaller while it is typed. -/
theorem typeTokens_timeless_undrawn :
    let ts : List Token := [.text ['a'], .scopeStart .bold, .delete [.pause 400], .scopeEnd .gray]
    let p : Projector :=
      { chrome := .ofSlide [] 0 1 {}, size := ⟨8, 2⟩, fails := fun attempt => attempt % 2 = 1 }
    let slides : List Slide := [⟨[], ['a']⟩, ⟨[], ['b']⟩]
    let pace : Pace := { typing := 20, jitter := 0 }
    let viewer : Viewer := { advance := .auto }
    let ms : List Show.Move :=
      [.act, .act, .act, .tick, .act, .act, .tick, .act, .resize ⟨4, 1⟩, .act, .act, .tick, .act]
    SameResult (fun s : Sheet => s) Projector.sheet (typeTokens .steady .never ts Sheet.blank)
        (typeTokens .usual (.deadline 5000) ts p) ∧
      ∃ s t printed texts, Show.begin? pace viewer ⟨8, 2⟩ slides = some s ∧
        Show.moves? ms s = some t ∧ t.stage.isTyped ∧
        Listing.render .final .steady slides = some printed ∧
        printed = Listing.blocks ((slides.map (·.title)).zip texts) ∧ texts.length = slides.length ∧
        texts[t.behind]? = some t.projector.sheet.text := by
  intro ts p slides pace viewer ms
  obtain ⟨hresult, hsheet, hprojector, hshow⟩ := typeTokens_timeless
  refine ⟨hresult hsheet hprojector .steady .usual .never (.deadline 5000) ts Sheet.blank p rfl
    (by decide +kernel) (by decide +kernel), ?_⟩
  have hend : ((Show.begin? pace viewer ⟨8, 2⟩ slides).bind (Show.moves? ms)).map
      (·.stage.isTyped) = some true := by decide +kernel
  obtain ⟨t, ht, htyped⟩ := Option.map_eq_some_iff.1 hend
  obtain ⟨s, hs, ht⟩ := Option.bind_eq_some_iff.1 ht
  have hlisting : (Listing.render .final .steady slides).isSome := by decide +kernel
  obtain ⟨printed, hprinted⟩ := Option.isSome_iff_exists.1 hlisting
  obtain ⟨texts, htexts⟩ := hshow _ _ _ _ _ _ _ _ _ _ hs ht htyped hprinted
  exact ⟨s, t, printed, texts, hs, ht, htyped, hprinted, htexts⟩

end Typist
