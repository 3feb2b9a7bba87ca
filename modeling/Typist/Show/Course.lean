import Typist.Show

/-!
# The course of a show

What happens in a show when nobody touches a key. Reader and player do at once what they can, the
reader first; when neither can do anything the clock runs on to the end of the delay that the player
waits for.

That comes to an end, because every step uses up some of what is left to do (`weight_unattended?`). So
the course of a show is a list, `Show.moments`: the states in which nothing happens at once, each with
the time that it lasts. The last one lasts for good.
-/

namespace Typist.Show

/-- What is left to do for a stage. -/
def stageWeight : Stage → Nat
  | .typing acts _ => 2 * acts.length + 3
  | .resting _ acts _ => 2 * acts.length + 4
  | .draining => 2
  | .waiting | .holding _ | .lingering => 1
  | .over _ => 0

/-- What is left to do for the reader. Something that is sent is received later. -/
def readerWeight : Reader → Nat
  | .listening | .gone => 0
  | .closing => 1
  | .sending _ => 3
  | .cancelling => 4

/-- What is left to do for a slide to come. -/
def sceneWeight (s : Scene) : Nat :=
  2 * s.run.acts.length + 3

/-- What is left to do in a show. -/
def weight (s : Show) : Nat :=
  stageWeight s.stage + readerWeight s.reader + s.queue.length + s.ahead.foldr (sceneWeight · + ·) 0

/-- What happens next when nobody touches a key, and the nanoseconds until then. -/
def unattended? (s : Show) : Option (Nat × Show) :=
  match s.relay? with
  | some t => some (0, t)
  | none =>
    match s.act? with
    | some t => some (0, t)
    | none => s.tick?.map (((s.delay?.map Delay.nanos).getD 0), ·)

theorem weight_relay? {s t : Show} (h : s.relay? = some t) : t.weight < s.weight := by
  unfold relay? at h
  split at h <;> simp at h <;> subst h
  · simp [weight, readerWeight, *]
  · rename_i input hr
    by_cases hi : input = .quit <;> simp [weight, readerWeight, hi, hr] <;> omega
  · simp [weight, readerWeight, *]

theorem weight_finish_lt {s : Show} (h : 0 < stageWeight s.stage) : s.finish.weight < s.weight := by
  have : stageWeight (.over .finished) = 0 := rfl
  simp only [finish, weight, this]
  omega

theorem weight_advance_lt {s : Show} (h : 0 < stageWeight s.stage) :
    s.advance.weight < s.weight := by
  unfold advance
  split
  · exact weight_finish_lt h
  · rename_i ha
    simp [weight, stageWeight, sceneWeight, ha] at *
    omega

/-- A show that is over because of a picture has nothing left to do for its stage. -/
theorem weight_unlessUndrawn_lt {s : Show} {next : Show → Show} {w : Nat}
    (h : s.weight < w + stageWeight s.stage) (hnext : (next s).weight < w) :
    (s.unlessUndrawn next).weight < w := by
  unfold unlessUndrawn
  split
  · simp [weight, stageWeight] at *
    omega
  · exact hnext

theorem weight_unlessUndrawn_advance_lt {s : Show} (h : 0 < stageWeight s.stage) :
    (s.unlessUndrawn advance).weight < s.weight :=
  weight_unlessUndrawn_lt (Nat.lt_add_of_pos_right h) (weight_advance_lt h)

theorem weight_unlessUndrawn_finish_lt {s : Show} (h : 0 < stageWeight s.stage) :
    (s.unlessUndrawn finish).weight < s.weight :=
  weight_unlessUndrawn_lt (Nat.lt_add_of_pos_right h) (weight_finish_lt h)

theorem weight_act? {s t : Show} (h : s.act? = some t) : t.weight < s.weight := by
  unfold act? at h
  split at h
  · rename_i hs
    simp at h
    subst h
    unfold typeOn
    split
    · by_cases hr : s.scene.run.halt.isSome
      · simp [report, weight, stageWeight, hs, hr]
      · have hreport : (s.report s.scene.run).scene.run.halt.isSome = false := by
          simpa [report] using hr
        simp only [hreport, Bool.false_eq_true, if_false]
        refine weight_unlessUndrawn_lt ?_ ?_ <;> simp [report, weight, stageWeight, hs]
    · split
      · exact weight_unlessUndrawn_finish_lt (by simp [report, stageWeight, hs])
      · simp [weight, stageWeight, hs]; omega
    · simp [weight, stageWeight, hs]
  · rename_i hs
    split at h <;> simp at h
    subst h
    exact weight_unlessUndrawn_finish_lt (by simp [report, stageWeight, hs])
  · rename_i hs
    split at h <;> rename_i hq <;> simp at h <;> subst h
    · simp [weight, hq]
    · unfold rest setPhase
      split
      · simp [weight, stageWeight, hs]
      · split <;> simp [weight, stageWeight, hs]
  · rename_i hs
    unfold receive? at h
    split at h
    · rename_i input queue hq
      simp at h
      subst h
      have hless : { s with queue }.weight < s.weight := by simp [weight, hq]
      have hstage : 0 < stageWeight { s with queue }.stage := by simp [stageWeight, hs]
      cases input with
      | advance => exact Nat.lt_trans (weight_unlessUndrawn_advance_lt hstage) hless
      | quit => exact Nat.lt_trans (weight_unlessUndrawn_finish_lt hstage) hless
      | redraw | other => exact hless
    · split at h <;> simp at h
      subst h
      exact weight_unlessUndrawn_finish_lt (by simp [stageWeight, hs])
  · rename_i hs
    split at h <;> simp at h
    subst h
    exact weight_unlessUndrawn_finish_lt (by simp [stageWeight, hs])
  · rename_i hs
    unfold receive? at h
    split at h
    · rename_i input queue hq
      simp at h
      subst h
      have hless : { s with queue }.weight < s.weight := by simp [weight, hq]
      have hstage : 0 < stageWeight { s with queue }.stage := by simp [stageWeight, hs]
      cases input with
      | redraw => exact hless
      | advance | quit | other => exact Nat.lt_trans (weight_unlessUndrawn_finish_lt hstage) hless
    · split at h <;> simp at h
      subst h
      exact weight_unlessUndrawn_finish_lt (by simp [stageWeight, hs])
  · simp at h

theorem weight_tick? {s t : Show} (h : s.tick? = some t) : t.weight < s.weight := by
  unfold tick? at h
  split at h
  · simp at h
  · split at h <;> simp at h <;> rename_i hs <;> subst h
    · simp [weight, stageWeight, hs]
    · exact weight_unlessUndrawn_advance_lt (by simp [stageWeight, hs])

/-- Every step uses up some of what is left to do. -/
theorem weight_unattended? {s t : Show} {n : Nat} (h : s.unattended? = some (n, t)) :
    t.weight < s.weight := by
  unfold unattended? at h
  split at h
  · simp at h; rename_i hr; rw [← h.2]; exact weight_relay? hr
  · split at h
    · simp at h; rename_i ha; rw [← h.2]; exact weight_act? ha
    · simp at h; exact weight_tick? h.1

/-- The states in which nothing happens at once, each with the nanoseconds that it lasts if it does not
last for good. -/
def moments (s : Show) : List (Show × Option Nat) :=
  match h : s.unattended? with
  | none => [(s, none)]
  | some (0, t) => moments t
  | some (n + 1, t) => (s, some (n + 1)) :: moments t
termination_by s.weight
decreasing_by all_goals exact weight_unattended? h

end Typist.Show
