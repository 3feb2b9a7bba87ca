import Typist.Proofs.Run.Script
import Typist.Scene

/-!
# A cancelled run is the beginning of the whole one

A run that is cancelled does what the same run does that nobody cancels, up to a suspension point:
the first one at which the cancellation has come, or in whose wait it comes. There it ends, in the
first case before the wait is asked for and in the second behind that. When no suspension point is
left, the run ends as the whole one does.

* `Stop`, `Run.stops` — the suspension points of a run that nobody cancels, in order, each with the
  run as it stands there;
* `Cancel.cameBy`, `Cancel.comesIn` — when a cancellation has come, and when it comes in a wait,
  told by what has been done so far;
* `typeTokens_cancelled` — where a cancelled run ends, and how it stands there.
-/

namespace Typist

/-! ## When a cancellation comes -/

/-- Whether an act is an occasion of a kind. A wait is asked for, and in the end it is over. -/
def Occasion.isAct : Occasion → Act → Bool
  | .append, .append _ _ => true
  | .remove, .remove _ _ => true
  | .request, .wait _ | .wake, .wait _ => true
  | _, _ => false

/-- The milliseconds that the waits among acts take. -/
def waitedMillis (acts : List Act) : Nat :=
  (acts.filterMap Act.delay?).foldr (Delay.wakeMillis · + ·) 0

namespace Cancel

/-- Whether a cancellation has come when these acts have been done. -/
def cameBy : Cancel → List Act → Bool
  | .never, _ => false
  | .fired, _ => true
  | .countdown occasion left, acts => left < acts.countP occasion.isAct
  | .deadline millis, acts => millis < waitedMillis acts

/-- Whether a cancellation comes by the end of a wait behind these acts, and not just when the wait
is over. -/
def comesIn (c : Cancel) (acts : List Act) (delay : Delay) : Bool :=
  match c with
  | .countdown .wake _ => false
  | c => c.cameBy (.wait delay :: acts)

/-- What is left of a cancellation after an act. -/
def see (c : Cancel) : Act → Cancel
  | .append _ _ => c.pass .append
  | .remove _ _ => c.pass .remove
  | .wait delay => ((c.pass .request).elapse delay).pass .wake
  | .glyph _ _ | .container _ _ => c

/-- What is left of a cancellation after acts, the last one first. -/
def seeAll (c : Cancel) (history : List Act) : Cancel :=
  history.foldr (fun act c => c.see act) c

@[simp] theorem seeAll_cons (c : Cancel) (act : Act) (history : List Act) :
    c.seeAll (act :: history) = (c.seeAll history).see act := rfl

/-- A countdown counts the acts of its occasion, and fires at the one behind them. -/
theorem see_countdown (occasion : Occasion) (left : Nat) (act : Act) :
    (countdown occasion left).see act =
      if occasion.isAct act then
        match left with
        | 0 => .fired
        | left + 1 => .countdown occasion left
      else .countdown occasion left := by
  cases occasion <;> cases act <;> cases left <;> rfl

/-- What never cancels sees nothing in any acts. -/
theorem seeAll_never (history : List Act) : never.seeAll history = .never := by
  induction history with
  | nil => rfl
  | cons act history ih =>
    rw [seeAll_cons, ih]
    cases act <;> rfl

/-- What has fired stays so. -/
theorem see_fired (act : Act) : fired.see act = .fired := by
  cases act <;> rfl

theorem seeAll_fired (history : List Act) : fired.seeAll history = .fired := by
  induction history with
  | nil => rfl
  | cons act history ih => rw [seeAll_cons, ih, see_fired]

/-- Over acts a countdown goes down by as many as belong to its occasion. -/
theorem seeAll_countdown (occasion : Occasion) (left : Nat) (history : List Act) :
    (countdown occasion left).seeAll history =
      if left < history.countP occasion.isAct then .fired
      else .countdown occasion (left - history.countP occasion.isAct) := by
  induction history with
  | nil => simp [seeAll]
  | cons act history ih =>
    rw [seeAll_cons, ih]
    split
    · rename_i hlt
      rw [see_fired, if_pos (Nat.lt_of_lt_of_le hlt (List.countP_cons ▸ Nat.le_add_right _ _))]
    · rename_i hge
      rw [see_countdown, List.countP_cons]
      split
      · split
        · rw [if_pos (by omega)]
        · rw [if_neg (by omega)]
          congr 1
          omega
      · rw [if_neg (by omega)]
        congr 1

/-- A deadline fires in the wait that goes past it. -/
theorem see_deadline_wait (millis : Nat) (delay : Delay) :
    (deadline millis).see (.wait delay) =
      if millis < delay.wakeMillis then .fired else .deadline (millis - delay.wakeMillis) := by
  have hpass : (deadline millis).see (.wait delay) =
      (if millis < delay.wakeMillis then fired else .deadline (millis - delay.wakeMillis)).pass
        .wake := rfl
  rw [hpass]
  split <;> rfl

/-- Over acts a deadline comes nearer by what their waits take. -/
theorem seeAll_deadline (millis : Nat) (history : List Act) :
    (deadline millis).seeAll history =
      if millis < waitedMillis history then .fired
      else .deadline (millis - waitedMillis history) := by
  induction history with
  | nil => simp [seeAll, waitedMillis]
  | cons act history ih =>
    rw [seeAll_cons, ih]
    cases act with
    | glyph | container | append | remove =>
      change Cancel.see _ _ = if millis < waitedMillis history then _ else _
      split <;> rfl
    | wait delay =>
      have hsum : waitedMillis (.wait delay :: history) = delay.wakeMillis + waitedMillis history :=
        rfl
      rw [hsum]
      split
      · rename_i hlt
        rw [see_fired, if_pos (Nat.lt_of_lt_of_le hlt (Nat.le_add_left _ _))]
      · rename_i hge
        rw [see_deadline_wait]
        generalize delay.wakeMillis = waited
        by_cases hlt : millis - waitedMillis history < waited
        · rw [if_pos hlt, if_pos (by omega)]
        · rw [if_neg hlt, if_neg (by omega)]
          congr 1
          omega

/-- A cancellation that has come is one that has fired. -/
theorem seeAll_eq_fired_iff {c : Cancel} {history : List Act} :
    c.seeAll history = .fired ↔ c.cameBy history = true := by
  cases c with
  | never => simp [seeAll_never, cameBy]
  | fired => simp [seeAll_fired, cameBy]
  | countdown occasion left => simp [seeAll_countdown, cameBy]
  | deadline millis => simp [seeAll_deadline, cameBy]

/-- A cancellation that comes in a wait fires before the wait is over. -/
theorem elapse_eq_fired_iff {c : Cancel} {history : List Act} {delay : Delay}
    (h : c.cameBy history = false) :
    ((c.seeAll history).pass .request).elapse delay = .fired ↔ c.comesIn history delay = true := by
  cases c with
  | never => simp [seeAll_never, comesIn, cameBy]
  | fired => simp [cameBy] at h
  | countdown occasion left =>
    have hge : ¬left < history.countP occasion.isAct := by simpa [cameBy] using h
    rw [seeAll_countdown, if_neg hge]
    cases occasion with
    | append | remove =>
      refine iff_of_false (by simp [pass, elapse]) ?_
      simpa [comesIn, cameBy, Occasion.isAct] using hge
    | wake => simp [pass, elapse, comesIn]
    | request =>
      simp only [pass, if_pos, comesIn, cameBy, decide_eq_true_eq, List.countP_cons]
      split
      · simp [elapse, Occasion.isAct]
        omega
      · simp [elapse, Occasion.isAct]
        omega
  | deadline millis =>
    have hge : ¬millis < waitedMillis history := by simpa [cameBy] using h
    have hsum : waitedMillis (.wait delay :: history) = delay.wakeMillis + waitedMillis history :=
      rfl
    rw [seeAll_deadline, if_neg hge]
    simp only [pass, elapse, comesIn, cameBy, hsum, decide_eq_true_eq]
    split
    · simp
      omega
    · simp
      omega

end Cancel

/-! ## Suspension points -/

/-- A suspension point of a run: the run as it stands there, and the delay that it is about to ask
for. -/
structure Stop (σ : Type) where
  run : Run σ
  delay : Delay

namespace Stop

variable {σ : Type}

/-- The run when it has asked for the delay. -/
def asked (p : Stop σ) : Run σ :=
  (p.run.count fun s => { s with requested := s.requested + p.delay }).did (.wait p.delay)

/-- Whether a run that is cancelled like this ends here, if it has come here. -/
def isEnd (c : Cancel) (p : Stop σ) : Bool :=
  c.cameBy p.run.history || c.comesIn p.run.history p.delay

/-- How a run that is cancelled like this stands when it ends here. A wait is asked for only if the
cancellation had not come before. -/
def cut (c : Cancel) (p : Stop σ) : Run σ :=
  if c.cameBy p.run.history then p.run else p.asked

end Stop

namespace Run

variable {σ : Type}

section

variable [Surface σ]

/-- The suspension points of a run that does strokes and that nobody cancels. -/
def stops (pace : Pace) : List Stroke → Run σ → List (Stop σ)
  | [], _ => []
  | x :: xs, r =>
    match r.wait? pace x with
    | none => stops pace xs (r.made x)
    | some (none, _) => []
    | some (some delay, generator) =>
      let stop : Stop σ := { run := { r.made x with generator }, delay }
      stop :: stops pace xs stop.asked

end

/-- A run that has been cancelled like this since its beginning. -/
def watched (c : Cancel) (r : Run σ) : Run σ :=
  { r with cancel := c.seeAll r.history }

/-- A run without its cancellation. -/
def unwatched (r : Run σ) : Run σ :=
  { r with cancel := .never }

@[simp] theorem surface_watched (c : Cancel) (r : Run σ) : (r.watched c).surface = r.surface := rfl

@[simp] theorem scopes_watched (c : Cancel) (r : Run σ) : (r.watched c).scopes = r.scopes := rfl

@[simp] theorem ledger_watched (c : Cancel) (r : Run σ) : (r.watched c).ledger = r.ledger := rfl

@[simp] theorem history_watched (c : Cancel) (r : Run σ) : (r.watched c).history = r.history := rfl

/-! ### A stroke does the same whoever watches -/

/-- A watched run counts as it does unwatched. -/
theorem watched_count (c : Cancel) (f : Summary → Summary) (r : Run σ) :
    (r.count f).watched c = (r.watched c).count f := rfl

variable [Surface σ]

/-- A watched run takes off the empty nodes that it takes off unwatched. -/
theorem watched_removeIfEmpty (c : Cancel) (node : Node) (r : Run σ) :
    (r.removeIfEmpty node).watched c = (r.watched c).removeIfEmpty node := by
  have hsame : 0 < Surface.childCount (r.watched c).surface node ↔
    0 < Surface.childCount r.surface node := Iff.rfl
  unfold removeIfEmpty
  by_cases h : 0 < Surface.childCount r.surface node
  · rw [if_pos h, if_pos (hsame.2 h)]
  · rw [if_neg h, if_neg (mt hsame.1 h), surface_watched]
    cases Surface.parent? r.surface node <;> rfl

theorem watched_foldl_removeIfEmpty (c : Cancel) (nodes : List Node) (r : Run σ) :
    (nodes.foldl removeIfEmpty r).watched c = nodes.foldl removeIfEmpty (r.watched c) := by
  induction nodes generalizing r with
  | nil => rfl
  | cons node nodes ih => rw [List.foldl_cons, ih, watched_removeIfEmpty, List.foldl_cons]

/-- A watched run closes the scopes that it closes unwatched. -/
theorem watched_closeScope (c : Cancel) (tag : Tag) (r : Run σ) :
    (r.closeScope tag).watched c = (r.watched c).closeScope tag := by
  simp only [closeScope, surface_watched, scopes_watched]
  cases closing? r.surface tag r.scopes with
  | none => rfl
  | some found => exact watched_foldl_removeIfEmpty _ _ _

/-- A watched run goes as far up as it does unwatched. -/
theorem watched_prune (c : Cancel) (steps : Nat) (node : Node) (r : Run σ) :
    (prune steps node r).watched c = prune steps node (r.watched c) := by
  induction steps generalizing node r with
  | zero => rfl
  | succ steps ih =>
    have hsame : (node = .root || 0 < Surface.childCount (r.watched c).surface node) = true ↔
      (node = .root || 0 < Surface.childCount r.surface node) = true := Iff.rfl
    unfold prune
    by_cases h : (node = .root || 0 < Surface.childCount r.surface node) = true
    · rw [if_pos h, if_pos (hsame.2 h)]
    · rw [if_neg h, if_neg (mt hsame.1 h), surface_watched]
      cases Surface.parent? r.surface node with
      | none => rfl
      | some parent => exact ih _ _

/-- A watched run erases as it does unwatched. -/
theorem watched_takeOff (c : Cancel) (node : Node) (r : Run σ) :
    (r.takeOff node).watched c = (r.watched c).takeOff node := by
  simp only [takeOff, surface_watched, history_watched]
  cases Surface.parent? r.surface node with
  | none => rfl
  | some parent => exact watched_prune _ _ _ _

/-- A watched run makes of a stroke what it makes of it unwatched. -/
theorem watched_made (c : Cancel) (x : Stroke) (r : Run σ) :
    (r.made x).watched c = (r.watched c).made x := by
  cases x with
  | type value | opening tag | pause millis | enter tokens | hold | turn units => rfl
  | closing tag => exact watched_closeScope c tag r
  | erase =>
    simp only [made, ledger_watched]
    cases r.ledger with
    | nil => rfl
    | cons node ledger =>
      dsimp only
      rw [watched_count, watched_takeOff]
      rfl

omit [Surface σ] in
/-- A watched run asks for the waits that it asks for unwatched. -/
theorem wait?_watched (pace : Pace) (x : Stroke) (c : Cancel) (r : Run σ) :
    (r.watched c).wait? pace x = r.wait? pace x := by
  cases x <;> rfl

/-! ### Where a cancelled run ends -/

omit [Surface σ] in
/-- A wait of a cancelled run. -/
theorem suspend_watched (c : Cancel) (p : Stop σ) :
    (p.run.watched c).suspend p.delay =
      if c.seeAll p.run.history = .fired then .ends .cancelled (p.run.watched c)
      else
        let cancel := ((c.seeAll p.run.history).pass .request).elapse p.delay
        if cancel = .fired then .ends .cancelled { p.asked with cancel }
        else .goes (p.asked.watched c) := rfl

omit [Surface σ] in
/-- A cancelled run that has come to its end waits no more. -/
theorem suspend_of_isEnd {c : Cancel} {p : Stop σ} (h : p.isEnd c = true) :
    ∃ r, (p.run.watched c).suspend p.delay = .ends .cancelled r ∧
      r.unwatched = (p.cut c).unwatched := by
  rw [suspend_watched]
  by_cases hcame : c.cameBy p.run.history = true
  · rw [if_pos (Cancel.seeAll_eq_fired_iff.2 hcame), Stop.cut, if_pos hcame]
    exact ⟨_, rfl, rfl⟩
  · have hin : c.comesIn p.run.history p.delay = true := by
      simpa [Stop.isEnd, hcame] using h
    have hfired := (Cancel.elapse_eq_fired_iff (by simpa using hcame)).2 hin
    rw [if_neg (mt Cancel.seeAll_eq_fired_iff.1 hcame), Stop.cut, if_neg hcame]
    dsimp only
    rw [if_pos hfired]
    exact ⟨_, rfl, rfl⟩

omit [Surface σ] in
/-- A cancelled run that has not come to its end waits like any other. -/
theorem suspend_of_not_isEnd {c : Cancel} {p : Stop σ} (h : p.isEnd c = false) :
    (p.run.watched c).suspend p.delay = .goes (p.asked.watched c) := by
  obtain ⟨hcame, hin⟩ := Bool.or_eq_false_iff.1 h
  rw [suspend_watched, if_neg (mt Cancel.seeAll_eq_fired_iff.1 (ne_true_of_eq_false hcame))]
  dsimp only
  rw [if_neg (mt (Cancel.elapse_eq_fired_iff hcame).1 (ne_true_of_eq_false hin))]

omit [Surface σ] in
/-- No stop is the end of a run that is never cancelled. -/
theorem isEnd_never (p : Stop σ) : p.isEnd .never = false := rfl

end Run

/-- A step whose run has been cancelled like this since its beginning. -/
def Step.watched {σ : Type} (c : Cancel) : Step σ → Step σ
  | .goes r => .goes (r.watched c)
  | .ends halt r => .ends halt (r.watched c)

namespace Run

variable {σ : Type} [Surface σ]

/-- Strokes of a cancelled run end at the first suspension point that is an end for it, or else
they do what the strokes of the whole run do. -/
theorem strikeAll_watched (pace : Pace) (c : Cancel) (xs : List Stroke) (r : Run σ) :
    match (r.stops pace xs).find? (Stop.isEnd c) with
    | none => (r.watched c).strikeAll pace xs = ((r.watched .never).strikeAll pace xs).watched c
    | some p => ∃ q, (r.watched c).strikeAll pace xs = .ends .cancelled q ∧
        q.unwatched = (p.cut c).unwatched := by
  induction xs generalizing r with
  | nil => rfl
  | cons x xs ih =>
    simp only [strikeAll_cons, strike_eq, wait?_watched, ← watched_made, stops]
    cases hw : r.wait? pace x with
    | none => exact ih (r.made x)
    | some drawn =>
      obtain ⟨delay?, generator⟩ := drawn
      cases delay? with
      | none => rfl
      | some delay =>
        let p : Stop σ := { run := { r.made x with generator }, delay }
        have hdrawn (c : Cancel) : ((r.made x).watched c).suspendDrawn (some delay, generator) =
          (p.run.watched c).suspend p.delay := rfl
        simp only [hdrawn, suspend_of_not_isEnd (isEnd_never p), Step.andThen_goes]
        -- at this suspension point the run ends, or it waits as the whole one does
        cases hend : p.isEnd c with
        | true =>
          rw [List.find?_cons_of_pos hend]
          obtain ⟨q, hq, hcut⟩ := suspend_of_isEnd hend
          rw [hq]
          exact ⟨q, rfl, hcut⟩
        | false =>
          rw [List.find?_cons_of_neg (ne_true_of_eq_false hend), suspend_of_not_isEnd hend]
          exact ih p.asked

omit [Surface σ] in
/-- A run that is never cancelled is watched by nobody. -/
theorem watched_never_eq {r : Run σ} (h : r.cancel = .never) : r.watched .never = r := by
  rw [watched, Cancel.seeAll_never, ← h]

/-- A run that nobody cancels is not cancelled later. -/
theorem cancel_strikeAll_never {pace : Pace} {xs : List Stroke} {r q : Run σ}
    (h : r.cancel = .never) (hgo : r.strikeAll pace xs = .goes q) : q.cancel = .never := by
  have hwhole := strikeAll_watched pace .never xs r
  rw [List.find?_eq_none.2 fun p _ => Bool.eq_false_iff.1 (isEnd_never p), watched_never_eq h,
    hgo] at hwhole
  have hq : q = q.watched .never := Step.goes.inj hwhole
  rw [hq, watched, Cancel.seeAll_never]

/-- No stroke makes a run cancelled that is never to be. -/
theorem cancel_made_never (x : Stroke) {r : Run σ} (h : r.cancel = .never) :
    (r.made x).cancel = .never := by
  have hmade := watched_made .never x r
  rw [watched_never_eq h] at hmade
  rw [← hmade, watched, Cancel.seeAll_never]

omit [Surface σ] in
/-- A wait that nobody cancels is seen to its end. -/
theorem suspend_never {r : Run σ} (h : r.cancel = .never) (delay : Delay) :
    r.suspend delay = .goes (r.asked delay .never) := by
  rw [suspend_eq, h]
  rfl

omit [Surface σ] in
/-- A run that is never cancelled goes on behind each wait. -/
theorem suspendDrawn_never {r : Run σ} (h : r.cancel = .never) (delay : Delay)
    (generator : Generator) :
    r.suspendDrawn (some delay, generator) = .goes ({ r with generator }.asked delay .never) :=
  suspend_never (r := { r with generator }) h delay

/-- A run that nobody cancels can only end early for want of a delay. -/
theorem strikeAll_never {pace : Pace} {xs : List Stroke} {r q : Run σ} {halt : Halt}
    (h : r.cancel = .never) (hends : r.strikeAll pace xs = .ends halt q) : halt = .overflow := by
  induction xs generalizing r with
  | nil => cases hends
  | cons x xs ih =>
    have hmade := cancel_made_never x h
    rw [strikeAll_cons, strike_eq] at hends
    cases hw : r.wait? pace x with
    | none =>
      rw [hw] at hends
      exact ih hmade hends
    | some drawn =>
      obtain ⟨delay?, generator⟩ := drawn
      rw [hw] at hends
      cases delay? with
      | none =>
        cases hends
        rfl
      | some delay =>
        dsimp only at hends
        rw [suspendDrawn_never hmade, Step.andThen_goes] at hends
        exact ih rfl hends

/-- The suspension points of more strokes are those of the first ones and, if these go on, those of
the others. -/
theorem stops_append (pace : Pace) (xs ys : List Stroke) {r : Run σ} (h : r.cancel = .never) :
    r.stops pace (xs ++ ys) = r.stops pace xs ++
      match r.strikeAll pace xs with
      | .goes q => q.stops pace ys
      | .ends _ _ => [] := by
  induction xs generalizing r with
  | nil => rfl
  | cons x xs ih =>
    have hmade := cancel_made_never x h
    simp only [List.cons_append, stops, strikeAll_cons, strike_eq]
    cases r.wait? pace x with
    | none => exact ih hmade
    | some drawn =>
      obtain ⟨delay?, generator⟩ := drawn
      cases delay? with
      | none => rfl
      | some delay =>
        let p : Stop σ := { run := { r.made x with generator }, delay }
        have hgo := suspend_of_not_isEnd (isEnd_never p)
        rw [watched_never_eq (r := p.run) hmade, watched_never_eq (r := p.asked) hmade] at hgo
        have hdrawn : (r.made x).suspendDrawn (some delay, generator) = .goes p.asked := hgo
        simp only [hdrawn, Step.andThen_goes, List.cons_append]
        exact congrArg (p :: ·) (ih hmade)

/-! ### What is on record of a run -/

/-- What the making and linking of nodes and the keeping of books keep. -/
structure Kept (I : Run σ → Prop) : Prop where
  glyph : ∀ r value, I r → I (r.createGlyph value).2
  container : ∀ r tag, I r → I (r.createContainer tag).2
  append : ∀ r parent child, I r → I (r.append parent child)
  remove : ∀ r parent child, I r → I (r.remove parent child)
  /-- scopes, ledger, counts and notes may change -/
  books : ∀ r r', I r → r'.surface = r.surface → r'.history = r.history →
    r'.summary.requested = r.summary.requested → I r'

/-- What they keep, a stroke keeps. -/
theorem Kept.made {I : Run σ → Prop} (hI : Kept I) (x : Stroke) {r : Run σ} (h : I r) :
    I (r.made x) := by
  cases x with
  | type value =>
    exact hI.books _ _ (hI.append _ r.current _ (hI.glyph _ value h)) rfl rfl rfl
  | opening tag =>
    exact hI.books _ _ (hI.append _ r.current _ (hI.container _ tag h)) rfl rfl rfl
  | closing tag =>
    simp only [Run.made, closeScope]
    split
    · exact hI.books _ _ h rfl rfl rfl
    · exact foldl_removeIfEmpty_keeps (fun r p c _ => hI.remove r p c) _ (hI.books _ _ h rfl rfl rfl)
  | pause millis | enter tokens | turn units => exact hI.books _ _ h rfl rfl rfl
  | hold => exact h
  | erase =>
    simp only [Run.made]
    split
    · exact h
    · rename_i node ledger _
      have hoff : I (takeOff node { r with ledger }) :=
        takeOff_keeps (fun r p c _ => hI.remove r p c) _ (hI.books _ _ h rfl rfl rfl)
      exact hI.books _ _ hoff rfl rfl rfl

/-- What the surface shows and what was asked for is what the acts on record amount to. -/
structure OnRecord (s : σ) (r : Run σ) : Prop where
  surface : r.surface = r.history.foldr (fun act s => act.onto s) s
  requested : r.summary.requested =
    (r.history.filterMap Act.delay?).foldr (fun delay sum => sum + delay) .zero

/-- Whatever a run does to its surface is on record. -/
theorem kept_onRecord (s : σ) : Kept (OnRecord s) where
  glyph _ value h :=
    ⟨congrArg (fun s => (Surface.createGlyph s value).2) h.surface, h.requested⟩
  container _ tag h :=
    ⟨congrArg (fun s => (Surface.createContainer s tag).2) h.surface, h.requested⟩
  append _ parent child h :=
    ⟨congrArg (fun s => Surface.append s parent child) h.surface, h.requested⟩
  remove _ parent child h :=
    ⟨congrArg (fun s => Surface.remove s parent child) h.surface, h.requested⟩
  books _ _ h hs hh hr := ⟨by rw [hs, hh, h.surface], by rw [hr, hh, h.requested]⟩

/-- A wait is on record, too. -/
theorem OnRecord.suspend {s : σ} {r : Run σ} (delay : Delay) (h : OnRecord s r) :
    OnRecord s (r.suspend delay).run := by
  unfold Run.suspend
  split
  · exact h
  · have hasked : r.summary.requested + delay = ((Act.wait delay :: r.history).filterMap
        Act.delay?).foldr (fun delay sum => sum + delay) .zero :=
      congrArg (· + delay) h.requested
    dsimp only
    split
    · exact ⟨h.surface, hasked⟩
    · exact ⟨h.surface, hasked⟩

/-- All that a stroke does is on record. -/
theorem OnRecord.strike {s : σ} {r : Run σ} (pace : Pace) (x : Stroke) (h : OnRecord s r) :
    OnRecord s (r.strike pace x).run := by
  have hmade := (kept_onRecord s).made x h
  rw [strike_eq]
  split
  · exact hmade
  · unfold suspendDrawn
    split
    · exact hmade
    · exact OnRecord.suspend _ ⟨hmade.surface, hmade.requested⟩

/-- Whatever strokes are done, and however they end, everything is on record. -/
theorem OnRecord.strikeAll {s : σ} {r : Run σ} (pace : Pace) (xs : List Stroke)
    (h : OnRecord s r) : OnRecord s (r.strikeAll pace xs).run := by
  induction xs generalizing r with
  | nil => exact h
  | cons x xs ih =>
    have hx := h.strike pace x
    rw [strikeAll_cons]
    cases hs : r.strike pace x with
    | goes q =>
      rw [hs] at hx
      exact ih hx
    | ends halt q =>
      rw [hs] at hx
      exact hx

/-- Acts that are done on the way to a wait, none of them a wait. -/
def Busy (acts : List Act) : Prop :=
  acts.filterMap Act.delay? = []

/-- Acts between two waits stay so with one more that is no wait. -/
theorem busy_cons {act : Act} {acts : List Act} (hact : act.delay? = none) (h : Busy acts) :
    Busy (act :: acts) := by
  rw [Busy, List.filterMap_cons, hact]
  exact h

/-- A stroke puts acts on record, and no wait among them before it waits itself. -/
theorem exists_history_made (x : Stroke) (r : Run σ) :
    ∃ acts, (r.made x).history = acts ++ r.history ∧ Busy acts := by
  have hkept : Kept fun q : Run σ => ∃ acts, q.history = acts ++ r.history ∧ Busy acts := {
    glyph := fun q value ⟨acts, hq, hacts⟩ =>
      ⟨.glyph _ value :: acts, congrArg (List.cons _) hq, busy_cons rfl hacts⟩
    container := fun q tag ⟨acts, hq, hacts⟩ =>
      ⟨.container _ tag :: acts, congrArg (List.cons _) hq, busy_cons rfl hacts⟩
    append := fun q parent child ⟨acts, hq, hacts⟩ =>
      ⟨.append parent child :: acts, congrArg (List.cons _) hq, busy_cons rfl hacts⟩
    remove := fun q parent child ⟨acts, hq, hacts⟩ =>
      ⟨.remove parent child :: acts, congrArg (List.cons _) hq, busy_cons rfl hacts⟩
    books := fun _ _ ⟨acts, hq, hacts⟩ _ hh _ => ⟨acts, hh.trans hq, hacts⟩ }
  exact hkept.made x ⟨[], rfl, rfl⟩

/-- The record of a run that nobody cancels: the waits put on it are the delays of the suspension
points, and behind each of these the record goes on with its wait. -/
theorem history_strikeAll (pace : Pace) (xs : List Stroke) (r : Run σ) :
    (∃ acts, ((r.watched .never).strikeAll pace xs).run.history = acts ++ r.history ∧
      acts.filterMap Act.delay? = ((r.stops pace xs).map Stop.delay).reverse) ∧
      ∀ p ∈ r.stops pace xs, ∃ later,
        ((r.watched .never).strikeAll pace xs).run.history =
          later ++ .wait p.delay :: p.run.history := by
  induction xs generalizing r with
  | nil => exact ⟨⟨[], rfl, rfl⟩, by simp [stops]⟩
  | cons x xs ih =>
    obtain ⟨acts, hmade, hacts⟩ := exists_history_made x r
    simp only [strikeAll_cons, strike_eq, wait?_watched, ← watched_made, stops]
    cases hw : r.wait? pace x with
    | none =>
      obtain ⟨⟨more, hmore, hdelays⟩, hstops⟩ := ih (r.made x)
      refine ⟨⟨more ++ acts, ?_, ?_⟩, hstops⟩
      · rw [List.append_assoc, ← hmade]
        exact hmore
      · rw [List.filterMap_append, hacts, List.append_nil, hdelays]
    | some drawn =>
      obtain ⟨delay?, generator⟩ := drawn
      cases delay? with
      | none => exact ⟨⟨acts, hmade, hacts⟩, by simp⟩
      | some delay =>
        let p : Stop σ := { run := { r.made x with generator }, delay }
        have hdrawn : ((r.made x).watched .never).suspendDrawn (some delay, generator) =
          (p.run.watched .never).suspend p.delay := rfl
        obtain ⟨⟨more, hmore, hdelays⟩, hstops⟩ := ih p.asked
        have hasked : p.asked.history = .wait delay :: (acts ++ r.history) :=
          congrArg (List.cons _) hmade
        simp only [hdrawn, suspend_of_not_isEnd (isEnd_never p), Step.andThen_goes]
        refine ⟨⟨more ++ .wait delay :: acts, ?_, ?_⟩, ?_⟩
        · rw [hmore, hasked, List.append_assoc, List.cons_append]
        · have hacts' : (Act.wait delay :: acts).filterMap Act.delay? = [delay] :=
            congrArg (List.cons delay) hacts
          rw [List.filterMap_append, hdelays, hacts', List.map_cons, List.reverse_cons]
        · rintro q (_ | ⟨_, hq⟩)
          · exact ⟨more, hmore⟩
          · exact hstops q hq

end Run

/-! ## Cancelled runs -/

/-- What a run has done when it stands at a suspension point. -/
def Stop.acts {σ : Type} (p : Stop σ) : List Act :=
  p.run.history.reverse

section

variable {σ : Type} [Surface σ]

/-- The suspension points of typing tokens on a surface when nobody cancels. -/
def stopsOf (pace : Pace) (ts : List Token) (s : σ) : List (Stop σ) :=
  Run.stops pace (script ts) (.begin pace .never s)

/-- Typing tokens is striking their script, watched by whoever may cancel. -/
theorem typeTokens_eq (pace : Pace) (cancel : Cancel) (ts : List Token) (s : σ) :
    typeTokens pace cancel ts s =
      .ofStep (((Run.begin pace .never s).watched cancel).strikeAll pace (script ts)) :=
  congrArg Outcome.ofStep (Run.playAll_eq_strikeAll pace ts _)

omit [Surface σ] in
@[simp] theorem Outcome.final_ofStep (step : Step σ) : (Outcome.ofStep step).final = step.run := by
  cases step <;> rfl

section

variable {pace : Pace} {cancel : Cancel} {ts : List Token} {s : σ}

/-- A run that nothing ends early does all strokes of its tokens. -/
theorem exists_goes_of_halt (h : (typeTokens pace cancel ts s).halt = none) :
    ∃ r, (Run.begin pace cancel s).strikeAll pace (script ts) = .goes r ∧
      (typeTokens pace cancel ts s).final = r := by
  have hout : typeTokens pace cancel ts s =
      .ofStep ((Run.begin pace cancel s).strikeAll pace (script ts)) :=
    typeTokens_eq pace cancel ts s
  rw [hout] at h ⊢
  cases hgo : (Run.begin pace cancel s).strikeAll pace (script ts) with
  | goes r => exact ⟨r, rfl, rfl⟩
  | ends halt r =>
    rw [hgo] at h
    cases h

/-- A run that goes to the end of its script ends in the state that it goes to. -/
theorem final_of_goes {r : Run σ}
    (hgo : (Run.begin pace cancel s).strikeAll pace (script ts) = .goes r) :
    (typeTokens pace cancel ts s).final = r := by
  have hout : typeTokens pace cancel ts s =
      .ofStep ((Run.begin pace cancel s).strikeAll pace (script ts)) :=
    typeTokens_eq pace cancel ts s
  rw [hout, hgo]
  rfl

/-- A run that nobody cancels, and that no delay ends, comes to its end. -/
theorem halt_never (h : (typeTokens pace .never ts s).halt ≠ some .overflow) :
    (typeTokens pace .never ts s).halt = none := by
  have hout : typeTokens pace .never ts s =
      .ofStep ((Run.begin pace .never s).strikeAll pace (script ts)) :=
    typeTokens_eq pace .never ts s
  rw [hout] at h ⊢
  cases hgo : (Run.begin pace .never s).strikeAll pace (script ts) with
  | goes r => rfl
  | ends halt r =>
    rw [hgo] at h
    exact absurd (congrArg some (Run.strikeAll_never rfl hgo)) h

end

/-- **A cancelled run is the beginning of the whole one.** The suspension points of the whole run
are its waits. A cancelled run does the acts of the whole one up to the first suspension point at
which the cancellation has come, or in whose wait it comes; there it stands as the whole run does,
the wait asked for in the second case only. If there is no such point, it comes out as the whole run
does. In any case its surface is what its own acts make of the first one, and the delays that it has
asked for are those of its own waits. -/
theorem typeTokens_cancelled (pace : Pace) (cancel : Cancel) (ts : List Token) (s : σ) :
    let whole := typeTokens pace .never ts s
    let cut := typeTokens pace cancel ts s
    let stops := stopsOf pace ts s
    whole.delays = stops.map Stop.delay ∧
      (match stops.find? (Stop.isEnd cancel) with
        | none => cut.halt = whole.halt ∧ cut.final.unwatched = whole.final.unwatched
        | some p =>
          cut.halt = some .cancelled ∧ cut.final.unwatched = (p.cut cancel).unwatched ∧
            cut.acts = (if cancel.cameBy p.run.history then p.acts
              else p.acts ++ [.wait p.delay]) ∧
            ∃ later, whole.acts = p.acts ++ .wait p.delay :: later) ∧
      cut.final.surface = cut.acts.foldl Act.onto s ∧
      cut.final.summary.requested = cut.delays.foldl (· + ·) .zero := by
  intro whole cut stops
  let start := Run.begin pace .never s
  have hwhole : whole.final = ((start.watched .never).strikeAll pace (script ts)).run := by
    rw [← Outcome.final_ofStep, ← typeTokens_eq]
  have hcut : cut.final = ((start.watched cancel).strikeAll pace (script ts)).run := by
    rw [← Outcome.final_ofStep, ← typeTokens_eq]
  obtain ⟨⟨acts, hacts, hdelays⟩, hlater⟩ := Run.history_strikeAll pace (script ts) start
  have hrecord : Run.OnRecord s cut.final := by
    rw [hcut]
    exact Run.OnRecord.strikeAll pace _ ⟨rfl, rfl⟩
  refine ⟨?_, ?_, ?_, ?_⟩
  · have hall : acts = whole.final.history := by
      rw [hwhole, hacts]
      exact (List.append_nil acts).symm
    rw [Outcome.delays, ← hall, hdelays, List.reverse_reverse]
    rfl
  · have hend := Run.strikeAll_watched pace cancel (script ts) start
    cases hfind : stops.find? (Stop.isEnd cancel) with
    | none =>
      change match stops.find? (Stop.isEnd cancel) with | none => _ | some p => _ at hend
      rw [hfind] at hend
      have hsame : cut = .ofStep
          (((start.watched .never).strikeAll pace (script ts)).watched cancel) :=
        (typeTokens_eq pace cancel ts s).trans (congrArg Outcome.ofStep hend)
      rw [hsame, show whole = _ from typeTokens_eq pace .never ts s]
      cases (start.watched .never).strikeAll pace (script ts) <;> exact ⟨rfl, rfl⟩
    | some p =>
      change match stops.find? (Stop.isEnd cancel) with | none => _ | some p => _ at hend
      rw [hfind] at hend
      obtain ⟨q, hq, hcutq⟩ := hend
      have hsame : cut = ⟨some .cancelled, q⟩ :=
        (typeTokens_eq pace cancel ts s).trans (congrArg Outcome.ofStep hq)
      obtain ⟨later, hp⟩ := hlater p (List.mem_of_find?_eq_some hfind)
      refine ⟨by rw [hsame], by rw [hsame]; exact hcutq, ?_, later.reverse, ?_⟩
      · have hhistory : q.unwatched.history = (p.cut cancel).unwatched.history :=
          congrArg Run.history hcutq
        change q.history = (p.cut cancel).history at hhistory
        rw [hsame, Outcome.acts, hhistory, Stop.cut, Stop.acts]
        split
        · rfl
        · exact List.reverse_cons
      · rw [Outcome.acts, hwhole, hp, List.reverse_append, List.reverse_cons, List.append_assoc]
        rfl
  · rw [hrecord.surface, Outcome.acts, List.foldl_reverse]
  · rw [hrecord.requested, Outcome.delays, List.foldl_reverse]

end

end Typist
