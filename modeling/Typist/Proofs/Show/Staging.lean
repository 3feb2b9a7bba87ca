import Typist.Proofs.Show.Moves

/-!
# What holds throughout a show

Whatever moves have led to it, a show stands at a slide of its deck, its sheet is what some first acts
of the scene make of a blank one, what the player does behind a slide is what the viewer is set to, and
typing is cancelled exactly when the reader is on its way out. All this holds when a show begins, and
every move keeps it.

* `Show.moves?_keeps` — what every move keeps holds after all moves;
* `Show.OnDeck`, `Show.OnScript`, `Show.Settled`, `Show.FollowsReader` — what is kept;
* `Show.inCourse_of_moves?` — all of it, for every show that was begun.
-/

namespace Typist

/-- The acts that are left to do of a scene that was not given up. -/
def Stage.left? : Stage → Option (List Act)
  | .typing acts _ | .resting _ acts _ => some acts
  | .draining | .waiting | .holding _ | .lingering => some []
  | .over _ => none

/-- Whether the slide that is on has been typed. -/
def Stage.isTyped : Stage → Bool
  | .draining | .waiting | .holding _ | .lingering => true
  | .typing _ _ | .resting _ _ _ | .over _ => false

/-- Nothing is left of a slide that has been typed. -/
theorem Stage.left?_of_isTyped {stage : Stage} (h : stage.isTyped) : stage.left? = some [] := by
  cases stage with
  | typing acts waits | resting delay acts waits | «over» ending => cases h
  | draining | waiting | holding gap | lingering => rfl

/-- Whether the player waits behind a slide for what comes next. -/
def Stage.isRest : Stage → Bool
  | .waiting | .holding _ | .lingering => true
  | .typing _ _ | .resting _ _ _ | .draining | .over _ => false

/-- Whether the reader has cancelled the typing. -/
def Reader.hasFired : Reader → Bool
  | .sending .quit | .closing | .gone => true
  | .listening | .cancelling | .sending _ => false

/-- All that a reader sends that has cancelled the typing is the wish to quit. -/
theorem Reader.quit_of_hasFired {input : Input} (h : (Reader.sending input).hasFired = true) :
    input = .quit := by
  cases input with
  | quit => rfl
  | advance | redraw | other => cases h

namespace Show

variable {s t : Show}

/-! ## Moves in a row -/

theorem moves?_cons {m : Move} {ms : List Move} (h : moves? (m :: ms) s = some t) :
    ∃ u, s.move? m = some u ∧ moves? ms u = some t :=
  Option.bind_eq_some_iff.1 h

theorem moves?_append (ms ns : List Move) (s : Show) :
    moves? (ms ++ ns) s = (moves? ms s).bind (moves? ns) := by
  induction ms generalizing s with
  | nil => rfl
  | cons m ms ih =>
    rw [List.cons_append, moves?, moves?, Option.bind_assoc]
    exact congrArg (Option.bind _) (funext ih)

/-- What every move keeps holds after all moves. -/
theorem moves?_keeps {I : Show → Prop} (hmove : ∀ {s t : Show} {m : Move}, Moved s t m → I s → I t)
    {ms : List Move} (h : moves? ms s = some t) (hs : I s) : I t := by
  induction ms generalizing s with
  | nil =>
    cases h
    exact hs
  | cons m ms ih =>
    obtain ⟨u, hu, ht⟩ := moves?_cons h
    exact ih ht (hmove (moved_of_move? hu) hs)

/-! ## Decks -/

/-- The show stands at a slide of its deck. -/
structure OnDeck (viewer : Viewer) (scenes : List Scene) (s : Show) : Prop where
  viewer : s.viewer = viewer
  scenes : scenes.drop s.behind = s.scene :: s.ahead

section

variable {viewer : Viewer} {scenes : List Scene}

/-- A show stays on its deck, whatever move is made. -/
theorem OnDeck.moved {m : Move} (hm : Moved s t m) (h : OnDeck viewer scenes s) :
    OnDeck viewer scenes t := by
  obtain hsame | hnext := hm.same_or_next
  · exact ⟨hsame.viewer.trans h.viewer, by rw [hsame.behind, hsame.scene, hsame.ahead, h.scenes]⟩
  · refine ⟨hnext.viewer.trans h.viewer, ?_⟩
    rw [hnext.behind, ← List.tail_drop, h.scenes, List.tail_cons, hnext.ahead]

/-- The slide that is on is the one behind those that are done. -/
theorem OnDeck.getElem? (h : OnDeck viewer scenes s) : scenes[s.behind]? = some s.scene := by
  rw [← Nat.add_zero s.behind, ← List.getElem?_drop, h.scenes]
  rfl

end

/-! ## Scripts -/

/-- The sheet is what some first acts of the scene make of a blank one, the others are left to do,
and nothing is left of a slide that has been typed. -/
structure OnScript (s : Show) : Prop where
  sheet : ∃ done left, s.scene.run.acts = done ++ left ∧
    s.projector.sheet = done.foldl (fun sheet act => act.onto sheet) .blank ∧
    ∀ acts, s.stage.left? = some acts → acts = left
  typed : s.stage.isTyped → s.scene.run.halt = none

/-- The slide is the same and its sheet too, and the stage has nothing else left. -/
theorem OnScript.same (h : OnScript s) (hslide : SameSlide s t)
    (hsheet : t.projector.sheet = s.projector.sheet)
    (hleft : ∀ acts, t.stage.left? = some acts → s.stage.left? = some acts)
    (htyped : t.stage.isTyped → s.scene.run.halt = none) : OnScript t where
  sheet := by
    obtain ⟨done, left, hacts, hdone, hs⟩ := h.sheet
    exact ⟨done, left, by rw [hslide.scene, hacts], by rw [hsheet, hdone],
      fun acts ha => hs acts (hleft acts ha)⟩
  typed ht := by rw [hslide.scene, htyped ht]

/-- An act of the scene is done. -/
theorem OnScript.did (h : OnScript s) {act : Act} {acts : List Act}
    (hs : s.stage.left? = some (act :: acts)) (hslide : SameSlide s t)
    (hsheet : t.projector.sheet = act.onto s.projector.sheet)
    (ht : t.stage.left? = some acts) (htyped : t.stage.isTyped = false) : OnScript t where
  sheet := by
    obtain ⟨done, left, hacts, hdone, hleft⟩ := h.sheet
    cases hleft _ hs
    refine ⟨done ++ [act], acts, ?_, ?_, ?_⟩
    · rw [hslide.scene, hacts, List.append_assoc, List.singleton_append]
    · rw [hsheet, hdone, List.foldl_append]
      rfl
    · intro more hmore
      rw [ht] at hmore
      exact (Option.some.inj hmore).symm
  typed := by simp [htyped]

theorem OnScript.player (h : OnScript s) (hplayer : SamePlayer s t) : OnScript t :=
  h.same hplayer.toSameSlide hplayer.sheet (by simp [hplayer.stage])
    (by simpa [hplayer.stage] using h.typed)

theorem OnScript.ended (h : OnScript s) (hended : Ended s t) : OnScript t := by
  obtain ⟨ending, ht⟩ := hended.stage
  exact h.same hended.toSameSlide hended.sheet (by simp [ht, Stage.left?]) (by simp [ht, Stage.isTyped])

theorem OnScript.next (hnext : Next s t) : OnScript t where
  sheet := by
    refine ⟨[], t.scene.run.acts, rfl, hnext.sheet, fun acts ha => ?_⟩
    rw [hnext.stage] at ha
    exact (Option.some.inj ha).symm
  typed := by simp [hnext.stage, Stage.isTyped]

/-- What comes behind a slide comes when it has been typed. -/
theorem isTyped_restStage (s : Show) : s.restStage.isTyped := by
  unfold restStage
  split
  · rfl
  · split <;> rfl

/-- A show keeps to the script of its slide, whatever move is made. -/
theorem OnScript.moved {m : Move} (hm : Moved s t m) (h : OnScript s) : OnScript t := by
  cases hm with
  | read _ _ _ _ player | cancel _ _ _ _ player | send _ _ _ _ player | close _ _ _ _ player
  | resize player _ | ignore _ player _ => exact h.player player
  | type stage _ stage' sheet slide _ =>
    exact h.did (by rw [stage]; rfl) slide sheet (by rw [stage']; rfl) (by rw [stage']; rfl)
  | @ask delay acts _ stage _ stage' sheet slide _ =>
    have hleft : s.stage.left? = some (.wait delay :: acts) := by rw [stage]; rfl
    exact h.did hleft slide sheet (by rw [stage']; rfl) (by rw [stage']; rfl)
  | typed stage halt stage' sheet slide _ =>
    exact h.same slide sheet (by simp [stage, stage', Stage.left?]) fun _ => halt
  | drain stage stage' sheet slide _ =>
    exact h.same slide sheet (by simp [stage, stage']) fun _ => h.typed (by rw [stage]; rfl)
  | rest stage _ stage' sheet slide _ =>
    have hleft : t.stage.left? = s.stage.left? := by
      rw [stage', Stage.left?_of_isTyped s.isTyped_restStage, stage]
      rfl
    exact h.same slide sheet (by simp [hleft]) fun _ => h.typed (by rw [stage]; rfl)
  | next _ next _ | elapse _ _ next _ => exact .next next
  | leave _ ended _ | stop _ ended _ | elapseOver _ _ ended _ => exact h.ended ended
  | wake stage _ stage' sheet slide _ =>
    exact h.same slide sheet (by simp [stage, stage', Stage.left?]) (by simp [stage', Stage.isTyped])

/-- The sheet of a slide that has been typed is what all acts of its scene make of a blank one. -/
theorem OnScript.sheet_of_isTyped (h : OnScript s) (htyped : s.stage.isTyped) :
    s.projector.sheet = s.scene.run.acts.foldl (fun sheet act => act.onto sheet) .blank := by
  obtain ⟨done, left, hacts, hdone, hleft⟩ := h.sheet
  have hnil : [] = left := hleft [] (Stage.left?_of_isTyped htyped)
  rw [hdone, hacts, ← hnil, List.append_nil]

/-! ## Rests -/

/-- A player that waits behind a slide waits for what the viewer is set to. -/
def Settled (s : Show) : Prop :=
  s.stage.isRest → s.stage = s.restStage

/-- What comes behind a slide depends on the slides that are left and on how the viewer is set. -/
theorem restStage_congr (h : SameSlide s t) : t.restStage = s.restStage := by
  rw [restStage, restStage, h.ahead, h.viewer]

/-- A player that waits behind a slide goes on waiting for what the viewer is set to, whatever move is
made. -/
theorem Settled.moved {m : Move} (hm : Moved s t m) (h : Settled s) : Settled t := by
  intro ht
  cases hm with
  | read _ _ _ _ player | cancel _ _ _ _ player | send _ _ _ _ player | close _ _ _ _ player
  | resize player _ | ignore _ player _ =>
    rw [player.stage] at ht ⊢
    exact (h ht).trans (restStage_congr player.toSameSlide).symm
  | type _ _ stage' _ _ _ | ask _ _ stage' _ _ _ | typed _ _ stage' _ _ _ | drain _ stage' _ _ _
  | wake _ _ stage' _ _ _ =>
    rw [stage'] at ht
    cases ht
  | rest _ _ stage' _ slide _ => exact stage'.trans (restStage_congr slide).symm
  | next _ next _ | elapse _ _ next _ =>
    rw [next.stage] at ht
    cases ht
  | leave _ ended _ | stop _ ended _ | elapseOver _ _ ended _ =>
    obtain ⟨ending, hover⟩ := ended.stage
    rw [hover] at ht
    cases ht

/-! ## Readers -/

/-- Typing is cancelled if the reader has cancelled it, and not otherwise. -/
def FollowsReader (s : Show) : Prop :=
  s.cancelled = s.reader.hasFired

theorem FollowsReader.same (h : FollowsReader s) (hr : t.reader = s.reader)
    (hc : t.cancelled = s.cancelled) : FollowsReader t := by
  rw [FollowsReader, hr, hc, h]

/-- Typing is cancelled exactly if the reader has cancelled it, whatever move is made. -/
theorem FollowsReader.moved {m : Move} (hm : Moved s t m) (h : FollowsReader s) :
    FollowsReader t := by
  cases hm with
  | @read input reader reader' queue cancelled player =>
    rw [FollowsReader, cancelled, h, reader, reader']
    split
    · rfl
    · cases input <;> first | rfl | contradiction
  | cancel reader reader' queue cancelled player =>
    rw [FollowsReader, cancelled, reader']
    rfl
  | @send input reader reader' queue cancelled player =>
    rw [FollowsReader, cancelled, h, reader, reader']
    cases input <;> rfl
  | close reader reader' queue cancelled player =>
    rw [FollowsReader, cancelled, h, reader, reader']
    rfl
  | resize _ side | type _ _ _ _ _ side | ask _ _ _ _ _ side | typed _ _ _ _ _ side
  | rest _ _ _ _ _ side | stop _ _ side | wake _ _ _ _ _ side | elapse _ _ _ side
  | elapseOver _ _ _ side => exact h.same side.reader side.cancelled
  | drain _ _ _ _ side | next _ _ side | ignore _ _ side | leave _ _ side =>
    exact h.same side.reader side.cancelled

/-! ## All of it -/

/-- What holds of a show on its course. -/
structure InCourse (viewer : Viewer) (scenes : List Scene) (s : Show) : Prop where
  deck : OnDeck viewer scenes s
  script : OnScript s
  settled : Settled s
  follows : FollowsReader s

/-- A show stays on its course, whatever move is made. -/
theorem InCourse.moved {viewer : Viewer} {scenes : List Scene} {m : Move} (hm : Moved s t m)
    (h : InCourse viewer scenes s) : InCourse viewer scenes t :=
  ⟨h.deck.moved hm, h.script.moved hm, h.settled.moved hm, h.follows.moved hm⟩

section

variable {pace : Pace} {viewer : Viewer} {size : Size} {slides : List Slide}
  {fails : Nat → Nat → Bool}

/-- What a show is that has begun. -/
theorem inCourse_of_begin? (h : begin? pace viewer size slides fails = some s) :
    InCourse viewer (slides.map (Scene.ofSlide pace)) s := by
  unfold begin? at h
  split at h
  · cases h
  · rename_i scene ahead hscenes
    cases h
    refine ⟨⟨rfl, hscenes⟩, ⟨⟨[], _, rfl, Projector.sheet_redraw _, ?_⟩, ?_⟩, ?_, rfl⟩
    · exact fun acts ha => (Option.some.inj ha).symm
    · exact fun ht => nomatch ht
    · exact fun ht => nomatch ht

/-- A show begins with nothing in the queue. -/
theorem queue_of_begin? (h : begin? pace viewer size slides fails = some s) : s.queue = [] := by
  unfold begin? at h
  split at h
  · cases h
  · cases h
    rfl

/-- A show begins with typing. -/
theorem isRest_of_begin? (h : begin? pace viewer size slides fails = some s) :
    s.stage.isRest = false := by
  unfold begin? at h
  split at h
  · cases h
  · cases h
    rfl

/-- **Whatever moves have led there, a show is on its course.** -/
theorem inCourse_of_moves? (h : begin? pace viewer size slides fails = some s) {ms : List Move}
    (ht : moves? ms s = some t) : InCourse viewer (slides.map (Scene.ofSlide pace)) t :=
  moves?_keeps InCourse.moved ht (inCourse_of_begin? h)

end

end Show

end Typist
