import Typist.Proofs.Run.Twins
import Typist.Show

/-!
# What one move of a show does

A show is moved by its reader, by its player, by the clock and by the screen, in any order. What each
of them can do is said once, as a relation between the show before a move and the show after it; what
pictures are drawn and what the log gets is left aside.

* `Show.SamePlayer`, `Show.SameReader`, `Show.SameSlide` — what a move leaves as it was;
* `Show.Next` — the next slide is on;
* `Show.Moved` — what a move does, with a case for each thing that can happen;
* `Show.moved_of_move?` — every move does one of these.
-/

namespace Typist.Show

/-- The same slide is on, in the same show. -/
structure SameSlide (s t : Show) : Prop where
  viewer : t.viewer = s.viewer
  behind : t.behind = s.behind
  scene : t.scene = s.scene
  ahead : t.ahead = s.ahead

/-- The player has done nothing. -/
structure SamePlayer (s t : Show) : Prop extends SameSlide s t where
  stage : t.stage = s.stage
  sheet : t.projector.sheet = s.projector.sheet

/-- The reader has done nothing, and nothing was received. -/
structure SameReader (s t : Show) : Prop where
  reader : t.reader = s.reader
  queue : t.queue = s.queue
  cancelled : t.cancelled = s.cancelled

/-- The first thing in the queue was received. -/
structure Received (s t : Show) (input : Input) : Prop where
  reader : t.reader = s.reader
  queue : s.queue = input :: t.queue
  cancelled : t.cancelled = s.cancelled

/-- The next slide is on, and nothing of it is typed. -/
structure Next (s t : Show) : Prop where
  viewer : t.viewer = s.viewer
  ahead : s.ahead = t.scene :: t.ahead
  behind : t.behind = s.behind + 1
  stage : t.stage = .typing t.scene.run.acts 0
  sheet : t.projector.sheet = .blank

/-- The show is over, and shows what it showed. -/
structure Ended (s t : Show) : Prop extends SameSlide s t where
  stage : ∃ ending, t.stage = .over ending
  sheet : t.projector.sheet = s.projector.sheet

/-- What comes behind a slide that has been typed. -/
def restStage (s : Show) : Stage :=
  if s.ahead.isEmpty then .lingering
  else match s.viewer.advance with
    | .key => .waiting
    | .auto => .holding (.ofMillis s.viewer.gapMillis)

/-- Whether the player need not wait for an input that it waits for: the queue is closed and empty. -/
def Closed (s : Show) : Prop :=
  s.queue = [] ∧ s.reader = .gone

/-- What a move does. -/
inductive Moved (s t : Show) : Move → Prop
  /-- the reader takes an input -/
  | read {input} (reader : s.reader = .listening)
      (reader' : t.reader = if input = .quit then .cancelling else .sending input)
      (queue : t.queue = s.queue) (cancelled : t.cancelled = s.cancelled)
      (player : SamePlayer s t) : Moved s t (.read input)
  /-- the reader cancels the typing -/
  | cancel (reader : s.reader = .cancelling) (reader' : t.reader = .sending .quit)
      (queue : t.queue = s.queue) (cancelled : t.cancelled = true) (player : SamePlayer s t) :
      Moved s t .relay
  /-- the reader sends an input -/
  | send {input} (reader : s.reader = .sending input)
      (reader' : t.reader = if input = .quit then .closing else .listening)
      (queue : t.queue = s.queue ++ [input]) (cancelled : t.cancelled = s.cancelled)
      (player : SamePlayer s t) : Moved s t .relay
  /-- the reader closes the queue -/
  | close (reader : s.reader = .closing) (reader' : t.reader = .gone) (queue : t.queue = s.queue)
      (cancelled : t.cancelled = s.cancelled) (player : SamePlayer s t) : Moved s t .relay
  /-- the screen takes another size -/
  | resize {size} (player : SamePlayer s t) (side : SameReader s t) : Moved s t (.resize size)
  /-- the player does an act that is no wait -/
  | type {act acts waits} (stage : s.stage = .typing (act :: acts) waits) (busy : act.delay? = none)
      (stage' : t.stage = .typing acts waits) (sheet : t.projector.sheet = act.onto s.projector.sheet)
      (slide : SameSlide s t) (side : SameReader s t) : Moved s t .act
  /-- the player begins a wait -/
  | ask {delay acts waits} (stage : s.stage = .typing (.wait delay :: acts) waits)
      (quiet : s.cancelled = false) (stage' : t.stage = .resting delay acts waits)
      (sheet : t.projector.sheet = s.projector.sheet) (slide : SameSlide s t)
      (side : SameReader s t) : Moved s t .act
  /-- the player has typed the slide -/
  | typed {waits} (stage : s.stage = .typing [] waits) (halt : s.scene.run.halt = none)
      (stage' : t.stage = .draining) (sheet : t.projector.sheet = s.projector.sheet)
      (slide : SameSlide s t) (side : SameReader s t) : Moved s t .act
  /-- the player throws something away -/
  | drain {input} (stage : s.stage = .draining) (stage' : t.stage = .draining)
      (sheet : t.projector.sheet = s.projector.sheet) (slide : SameSlide s t)
      (side : Received s t input) : Moved s t .act
  /-- the player has nothing more to throw away -/
  | rest (stage : s.stage = .draining) (queue : s.queue = []) (stage' : t.stage = s.restStage)
      (sheet : t.projector.sheet = s.projector.sheet) (slide : SameSlide s t)
      (side : SameReader s t) : Moved s t .act
  /-- the player is asked to go on -/
  | next (stage : s.stage = .waiting) (next : Next s t) (side : Received s t .advance) :
      Moved s t .act
  /-- the player receives something that does not end its waiting -/
  | ignore {input} (stage : s.stage = .waiting ∧ (input = .redraw ∨ input = .other) ∨
        s.stage = .lingering ∧ input = .redraw) (player : SamePlayer s t)
      (side : Received s t input) : Moved s t .act
  /-- the player receives something that ends the show -/
  | leave {input} (stage : s.stage = .waiting ∨ s.stage = .lingering) (ended : Ended s t)
      (side : Received s t input) : Moved s t .act
  /-- the player ends the show, and receives nothing -/
  | stop (stage : (∃ acts waits, s.stage = .typing acts waits) ∨
        (∃ delay acts waits, s.stage = .resting delay acts waits) ∨ (∃ gap, s.stage = .holding gap) ∨
        (s.stage = .waiting ∨ s.stage = .lingering) ∧ s.Closed)
      (ended : Ended s t) (side : SameReader s t) : Moved s t .act
  /-- a wait is over -/
  | wake {delay acts waits} (stage : s.stage = .resting delay acts waits)
      (quiet : s.cancelled = false) (stage' : t.stage = .typing acts (waits + 1))
      (sheet : t.projector.sheet = s.projector.sheet) (slide : SameSlide s t)
      (side : SameReader s t) : Moved s t .tick
  /-- a gap is over -/
  | elapse {gap} (stage : s.stage = .holding gap) (quiet : s.cancelled = false) (next : Next s t)
      (side : SameReader s t) : Moved s t .tick
  /-- a gap is over, and a picture of the slide was not drawn -/
  | elapseOver {gap} (stage : s.stage = .holding gap) (quiet : s.cancelled = false)
      (ended : Ended s t) (side : SameReader s t) : Moved s t .tick

/-! ## What the parts of a move do -/

section

variable {s t u : Show}

theorem SameSlide.trans (h : SameSlide s t) (h' : SameSlide t u) : SameSlide s u :=
  ⟨h'.viewer.trans h.viewer, h'.behind.trans h.behind, h'.scene.trans h.scene,
    h'.ahead.trans h.ahead⟩

theorem SamePlayer.trans (h : SamePlayer s t) (h' : SamePlayer t u) : SamePlayer s u :=
  ⟨h.toSameSlide.trans h'.toSameSlide, h'.stage.trans h.stage, h'.sheet.trans h.sheet⟩

theorem SamePlayer.ended (h : SamePlayer s t) (h' : Ended t u) : Ended s u :=
  ⟨h.toSameSlide.trans h'.toSameSlide, h'.stage, h'.sheet.trans h.sheet⟩

theorem SamePlayer.next (h : SamePlayer s t) (h' : Next t u) : Next s u where
  viewer := h'.viewer.trans h.viewer
  ahead := h.ahead.symm.trans h'.ahead
  behind := h'.behind.trans (congrArg (· + 1) h.behind)
  stage := h'.stage
  sheet := h'.sheet

theorem SameReader.trans (h : SameReader s t) (h' : SameReader t u) : SameReader s u :=
  ⟨h'.reader.trans h.reader, h'.queue.trans h.queue, h'.cancelled.trans h.cancelled⟩

theorem Received.trans {input : Input} (h : Received s t input) (h' : SameReader t u) :
    Received s u input where
  reader := h'.reader.trans h.reader
  queue := h.queue.trans (congrArg (input :: ·) h'.queue.symm)
  cancelled := h'.cancelled.trans h.cancelled

end

variable {s t : Show}

/-- The show is over because of a picture, or goes on. -/
theorem unlessUndrawn_cases (s : Show) (next : Show → Show) :
    s.unlessUndrawn next = next s ∨
      Ended s (s.unlessUndrawn next) ∧ SameReader s (s.unlessUndrawn next) := by
  cases h : s.projector.failure with
  | none =>
    refine .inl ?_
    simp only [unlessUndrawn, Projector.takeFailure, h]
  | some attempt =>
    refine .inr ?_
    simp only [unlessUndrawn, Projector.takeFailure, h]
    exact ⟨⟨⟨rfl, rfl, rfl, rfl⟩, ⟨_, rfl⟩, rfl⟩, rfl, rfl, rfl⟩

/-- A show that looks for a failure to draw and finishes is over. -/
theorem unlessUndrawn_finish (s : Show) :
    Ended s (s.unlessUndrawn finish) ∧ SameReader s (s.unlessUndrawn finish) := by
  obtain h | h := s.unlessUndrawn_cases finish
  · rw [h]
    exact ⟨⟨⟨rfl, rfl, rfl, rfl⟩, ⟨_, rfl⟩, rfl⟩, rfl, rfl, rfl⟩
  · exact h

/-- A show that looks for a failure to draw and advances has the next slide on, or is over. -/
theorem unlessUndrawn_advance (s : Show) :
    (Next s (s.unlessUndrawn advance) ∨ Ended s (s.unlessUndrawn advance)) ∧
      SameReader s (s.unlessUndrawn advance) := by
  obtain h | h := s.unlessUndrawn_cases advance
  · rw [h]
    unfold advance
    split
    · exact ⟨.inr ⟨⟨rfl, rfl, rfl, rfl⟩, ⟨_, rfl⟩, rfl⟩, rfl, rfl, rfl⟩
    · rename_i scene ahead ha
      exact ⟨.inl ⟨rfl, ha, rfl, rfl, Projector.sheet_redraw _⟩, rfl, rfl, rfl⟩
  · exact ⟨.inr h.1, h.2⟩

/-- What is received is the first thing in the queue, or that it is closed. -/
theorem receive?_cases {input? : Option Input} (h : s.receive? = some (input?, t)) :
    (∃ input, input? = some input ∧ Received s t input ∧ SamePlayer s t) ∨
      input? = none ∧ s.Closed ∧ t = s := by
  unfold receive? at h
  split at h
  · rename_i input queue hq
    cases h
    exact .inl ⟨input, rfl, ⟨rfl, hq, rfl⟩, ⟨rfl, rfl, rfl, rfl⟩, rfl, rfl⟩
  · rename_i hq
    split at h
    · rename_i hgone
      cases h
      exact .inr ⟨rfl, ⟨hq, hgone⟩, rfl⟩
    · cases h

/-- The log is nothing that anybody looks at. -/
theorem report_same (s : Show) (o : Outcome Sheet) :
    SamePlayer s (s.report o) ∧ SameReader s (s.report o) :=
  ⟨⟨⟨rfl, rfl, rfl, rfl⟩, rfl, rfl⟩, rfl, rfl, rfl⟩

/-- The show ends with something in the log, whether or not a picture was not drawn. -/
theorem reported_finish (s : Show) (o : Outcome Sheet) :
    Ended s ((s.report o).unlessUndrawn finish) ∧
      SameReader s ((s.report o).unlessUndrawn finish) :=
  have ⟨hplayer, hside⟩ := s.report_same o
  have ⟨hended, hside'⟩ := (s.report o).unlessUndrawn_finish
  ⟨hplayer.ended hended, hside.trans hside'⟩

/-- A redraw changes neither what the player does nor what the reader does. -/
theorem redraw_same (s : Show) : SamePlayer s s.redraw ∧ SameReader s s.redraw :=
  ⟨⟨⟨rfl, rfl, rfl, rfl⟩, rfl, Projector.sheet_redraw _⟩, rfl, rfl, rfl⟩

/-- What is behind a slide that has been typed. -/
theorem rest_same (s : Show) :
    SameSlide s s.rest ∧ s.rest.stage = s.restStage ∧ s.rest.projector.sheet = s.projector.sheet ∧
      SameReader s s.rest := by
  unfold rest restStage setPhase
  split
  · exact ⟨⟨rfl, rfl, rfl, rfl⟩, rfl, Projector.sheet_setPhase _ _, rfl, rfl, rfl⟩
  · cases s.viewer.advance with
    | key | auto =>
      exact ⟨⟨rfl, rfl, rfl, rfl⟩, rfl, Projector.sheet_setPhase _ _, rfl, rfl, rfl⟩

/-! ## What a move does -/

/-- Going on with what is left of a slide is a move. -/
theorem moved_typeOn {acts : List Act} {waits : Nat} (hs : s.stage = .typing acts waits) :
    Moved s (s.typeOn waits acts) .act := by
  unfold typeOn
  split
  · -- the slide is typed, or a delay was none
    dsimp only
    split
    · exact .stop (.inl ⟨_, _, hs⟩) ⟨⟨rfl, rfl, rfl, rfl⟩, ⟨_, rfl⟩, rfl⟩ ⟨rfl, rfl, rfl⟩
    · rename_i hhalt
      have hnone : s.scene.run.halt = none := by simpa [report] using hhalt
      obtain h | ⟨hended, hside⟩ :=
        (s.report s.scene.run).unlessUndrawn_cases fun s => { s with stage := .draining }
      · rw [h]
        exact .typed hs hnone rfl rfl ⟨rfl, rfl, rfl, rfl⟩ ⟨rfl, rfl, rfl⟩
      · have ⟨hplayer, hsame⟩ := s.report_same s.scene.run
        exact .stop (.inl ⟨_, _, hs⟩) (hplayer.ended hended) (hsame.trans hside)
  · split
    · obtain ⟨hended, hside⟩ := s.reported_finish (s.scene.cutAt s.pace waits)
      exact .stop (.inl ⟨_, _, hs⟩) hended hside
    · rename_i hquiet
      exact .ask hs (Bool.eq_false_iff.2 hquiet) rfl rfl ⟨rfl, rfl, rfl, rfl⟩ ⟨rfl, rfl, rfl⟩
  · rename_i act acts hbusy
    have hact : act.delay? = none := by
      cases act with
      | wait delay => exact absurd rfl (hbusy delay)
      | glyph | container | append | remove => rfl
    exact .type hs hact rfl (Projector.keeps_sheet.onto s.projector act) ⟨rfl, rfl, rfl, rfl⟩
      ⟨rfl, rfl, rfl⟩

/-- What the player does with what it receives when it waits for an advance key. -/
theorem moved_waiting {u : Show} {input : Input} (hs : s.stage = .waiting)
    (hplayer : SamePlayer s u) (hside : Received s u input) :
    Moved s (match some input with
      | some .advance => u.unlessUndrawn advance
      | some .quit | none => u.unlessUndrawn finish
      | some .redraw => u.redraw
      | some .other => u) .act := by
  cases input with
  | advance =>
    obtain ⟨hnext | hended, hsame⟩ := u.unlessUndrawn_advance
    · exact .next hs (hplayer.next hnext) (hside.trans hsame)
    · exact .leave (.inl hs) (hplayer.ended hended) (hside.trans hsame)
  | quit =>
    obtain ⟨hended, hsame⟩ := u.unlessUndrawn_finish
    exact .leave (.inl hs) (hplayer.ended hended) (hside.trans hsame)
  | redraw =>
    obtain ⟨hsame, hsame'⟩ := u.redraw_same
    exact .ignore (.inl ⟨hs, .inl rfl⟩) (hplayer.trans hsame) (hside.trans hsame')
  | other => exact .ignore (.inl ⟨hs, .inr rfl⟩) hplayer hside

/-- What the player does with what it receives when it waits for any key. -/
theorem moved_lingering {u : Show} {input : Input} (hs : s.stage = .lingering)
    (hplayer : SamePlayer s u) (hside : Received s u input) :
    Moved s (match some input with
      | some .redraw => u.redraw
      | _ => u.unlessUndrawn finish) .act := by
  cases input with
  | redraw =>
    obtain ⟨hsame, hsame'⟩ := u.redraw_same
    exact .ignore (.inr ⟨hs, rfl⟩) (hplayer.trans hsame) (hside.trans hsame')
  | advance | quit | other =>
    obtain ⟨hended, hsame⟩ := u.unlessUndrawn_finish
    exact .leave (.inr hs) (hplayer.ended hended) (hside.trans hsame)

/-- What the player does by itself is one of the moves that there are. -/
theorem moved_act? (h : s.act? = some t) : Moved s t .act := by
  unfold act? at h
  split at h
  · rename_i acts waits hs
    cases h
    exact moved_typeOn hs
  · rename_i delay acts waits hs
    split at h
    · cases h
      obtain ⟨hended, hside⟩ := s.reported_finish (s.scene.cutAt s.pace waits)
      exact .stop (.inr (.inl ⟨_, _, _, hs⟩)) hended hside
    · cases h
  · rename_i hs
    split at h
    · rename_i input queue hq
      cases h
      exact .drain hs hs rfl ⟨rfl, rfl, rfl, rfl⟩ ⟨rfl, hq, rfl⟩
    · rename_i hq
      cases h
      obtain ⟨hslide, hstage, hsheet, hside⟩ := s.rest_same
      exact .rest hs hq hstage hsheet hslide hside
  · rename_i hs
    obtain ⟨⟨input?, u⟩, hu, rfl⟩ := Option.map_eq_some_iff.1 h
    obtain ⟨input, rfl, hside, hplayer⟩ | ⟨rfl, hclosed, rfl⟩ := receive?_cases hu
    · exact moved_waiting hs hplayer hside
    · obtain ⟨hended, hside⟩ := u.unlessUndrawn_finish
      exact .stop (.inr (.inr (.inr ⟨.inl hs, hclosed⟩))) hended hside
  · rename_i gap hs
    split at h
    · cases h
      obtain ⟨hended, hside⟩ := s.unlessUndrawn_finish
      exact .stop (.inr (.inr (.inl ⟨gap, hs⟩))) hended hside
    · cases h
  · rename_i hs
    obtain ⟨⟨input?, u⟩, hu, rfl⟩ := Option.map_eq_some_iff.1 h
    obtain ⟨input, rfl, hside, hplayer⟩ | ⟨rfl, hclosed, rfl⟩ := receive?_cases hu
    · exact moved_lingering hs hplayer hside
    · obtain ⟨hended, hside⟩ := u.unlessUndrawn_finish
      exact .stop (.inr (.inr (.inr ⟨.inr hs, hclosed⟩))) hended hside
  · cases h

/-- What the player does when time has passed is one of the moves that there are. -/
theorem moved_tick? (h : s.tick? = some t) : Moved s t .tick := by
  unfold tick? at h
  split at h
  · cases h
  · rename_i hquiet
    have hquiet := Bool.eq_false_iff.2 hquiet
    split at h
    · rename_i delay acts waits hs
      cases h
      exact .wake hs hquiet rfl rfl ⟨rfl, rfl, rfl, rfl⟩ ⟨rfl, rfl, rfl⟩
    · rename_i gap hs
      cases h
      obtain ⟨hnext | hended, hside⟩ := s.unlessUndrawn_advance
      · exact .elapse hs hquiet hnext hside
      · exact .elapseOver hs hquiet hended hside
    · cases h

/-- What the reader does is one of the moves that there are. -/
theorem moved_relay? (h : s.relay? = some t) : Moved s t .relay := by
  unfold relay? at h
  split at h
  · cases h
  · cases h
  · rename_i hr
    cases h
    exact .cancel hr rfl rfl rfl ⟨⟨rfl, rfl, rfl, rfl⟩, rfl, rfl⟩
  · rename_i input hr
    cases h
    exact .send hr rfl rfl rfl ⟨⟨rfl, rfl, rfl, rfl⟩, rfl, rfl⟩
  · rename_i hr
    cases h
    exact .close hr rfl rfl rfl ⟨⟨rfl, rfl, rfl, rfl⟩, rfl, rfl⟩

/-- **Every move does one of these.** -/
theorem moved_of_move? {m : Move} (h : s.move? m = some t) : Moved s t m := by
  cases m with
  | read input =>
    simp only [move?, read?] at h
    split at h
    · rename_i hr
      cases h
      exact .read hr rfl rfl rfl ⟨⟨rfl, rfl, rfl, rfl⟩, rfl, rfl⟩
    · cases h
  | relay => exact moved_relay? h
  | act => exact moved_act? h
  | tick => exact moved_tick? h
  | resize size =>
    cases h
    exact .resize ⟨⟨rfl, rfl, rfl, rfl⟩, rfl, rfl⟩ ⟨rfl, rfl, rfl⟩

/-- A move leaves the slide on that is on, or brings the next one. -/
theorem Moved.same_or_next {m : Move} (h : Moved s t m) : SameSlide s t ∨ Next s t := by
  cases h with
  | read _ _ _ _ player | cancel _ _ _ _ player | send _ _ _ _ player | close _ _ _ _ player
  | resize player _ | ignore _ player _ => exact .inl player.toSameSlide
  | type _ _ _ _ slide _ | ask _ _ _ _ slide _ | typed _ _ _ _ slide _ | drain _ _ _ slide _
  | rest _ _ _ _ slide _ | wake _ _ _ _ slide _ => exact .inl slide
  | leave _ ended _ | stop _ ended _ | elapseOver _ _ ended _ => exact .inl ended.toSameSlide
  | next _ next _ | elapse _ _ next _ => exact .inr next

end Typist.Show
