import Mathlib.Data.List.Induction
import Typist.Proofs.Show.Staging

/-!
# Which keys count

What is in the queue when the player begins to wait was thrown away before; so whatever it receives in a
wait was sent in that wait. To say so one has to tell apart the messages that are sent, and one is like
another. What tells them apart is their place: nothing overtakes anything in the queue, so the message
that is received when so many were received before is the one that was sent when so many were sent
before.

* `Show.sent`, `Show.taken` — what goes into the queue in a row of moves, and what comes out of it;
* `Show.queue_append_sent` — nothing is lost in the queue, and the order stays;
* `Show.SentAt` — when the message of a place was sent;
* `Show.sentAt_of_wait` — what is in the queue in a wait was sent in it;
* `Show.move?_started` — what starts a slide, and what ends the last wait.
-/

namespace Typist.Show

variable {s t u start : Show}

/-! ## What goes through the queue -/

/-- What a move puts into the queue. -/
def sentBy (s : Show) : Move → List Input
  | .relay =>
    match s.reader with
    | .sending input => [input]
    | _ => []
  | _ => []

/-- What a move takes out of the queue, to throw it away or to act upon it. -/
def takenBy (s : Show) : Move → List Input
  | .act =>
    match s.stage with
    | .draining | .waiting | .lingering => s.queue.take 1
    | _ => []
  | _ => []

/-- What each of some moves contributes, in order. -/
def gather (part : Show → Move → List Input) : List Move → Show → List Input
  | [], _ => []
  | m :: ms, s => part s m ++ ((s.move? m).map (gather part ms)).getD []

/-- What moves put into the queue, in order. -/
def sent (ms : List Move) (s : Show) : List Input :=
  gather sentBy ms s

/-- What moves take out of the queue, in order. -/
def taken (ms : List Move) (s : Show) : List Input :=
  gather takenBy ms s

/-- What a row of moves contributes is what its first part contributes, and behind it what the rest
contributes from where the first part has led. -/
theorem gather_append (part : Show → Move → List Input) {ms : List Move} (ns : List Move)
    (h : moves? ms s = some t) : gather part (ms ++ ns) s = gather part ms s ++ gather part ns t := by
  induction ms generalizing s with
  | nil =>
    cases h
    rfl
  | cons m ms ih =>
    obtain ⟨u, hu, ht⟩ := moves?_cons h
    simp only [List.cons_append, gather, hu, Option.map_some, Option.getD_some, ih ht,
      List.append_assoc]

/-- A single move contributes its part, also where it cannot be made. -/
theorem gather_singleton (part : Show → Move → List Input) (m : Move) (s : Show) :
    gather part [m] s = part s m := by
  cases h : s.move? m <;> simp [gather, h]

/-- A move takes from the front of the queue what it takes, and puts behind it what it puts. -/
theorem queue_append_sentBy {m : Move} (hm : Moved s t m) :
    s.queue ++ s.sentBy m = s.takenBy m ++ t.queue := by
  cases hm with
  | read _ _ queue _ _ => simp [sentBy, takenBy, queue]
  | cancel reader _ queue _ _ | send reader _ queue _ _ | close reader _ queue _ _ =>
    simp [sentBy, takenBy, reader, queue]
  | resize _ side => simp [sentBy, takenBy, side.queue]
  | type stage _ _ _ _ side | ask stage _ _ _ _ side | typed stage _ _ _ _ side
  | rest stage _ _ _ _ side => simp_all [sentBy, takenBy, side.queue]
  | drain stage _ _ _ side | next stage _ side => simp [sentBy, takenBy, stage, side.queue]
  | ignore stage _ side =>
    obtain ⟨stage, -⟩ | ⟨stage, -⟩ := stage <;> simp [sentBy, takenBy, stage, side.queue]
  | leave stage _ side =>
    obtain stage | stage := stage <;> simp [sentBy, takenBy, stage, side.queue]
  | stop stage _ side =>
    obtain ⟨_, _, stage⟩ | ⟨_, _, _, stage⟩ | ⟨_, stage⟩ | ⟨stage | stage, queue, -⟩ := stage
    · simp [sentBy, takenBy, stage, side.queue]
    · simp [sentBy, takenBy, stage, side.queue]
    · simp [sentBy, takenBy, stage, side.queue]
    · simp [sentBy, takenBy, stage, side.queue, queue]
    · simp [sentBy, takenBy, stage, side.queue, queue]
  | wake _ _ _ _ _ side | elapse _ _ _ side | elapseOver _ _ _ side =>
    simp [sentBy, takenBy, side.queue]

/-- **Nothing is lost in the queue, and nothing overtakes anything.** -/
theorem queue_append_sent {ms : List Move} (h : moves? ms s = some t) :
    s.queue ++ sent ms s = taken ms s ++ t.queue := by
  induction ms generalizing s with
  | nil =>
    cases h
    simp [sent, taken, gather]
  | cons m ms ih =>
    obtain ⟨u, hu, ht⟩ := moves?_cons h
    have hone := queue_append_sentBy (moved_of_move? hu)
    have hrest : u.queue ++ gather sentBy ms u = gather takenBy ms u ++ t.queue := ih ht
    simp only [sent, taken, gather, hu, Option.map_some, Option.getD_some]
    rw [← List.append_assoc, hone, List.append_assoc, hrest, List.append_assoc]

/-! ## When a message was sent -/

/-- Among some moves there is the one by which the reader sent this input, when it had sent so many
others; the player was at this stage then, and so many slides were done. -/
def SentAt (start : Show) (ms : List Move) (place : Nat) (input : Input) (stage : Stage)
    (behind : Nat) : Prop :=
  ∃ before after s, ms = before ++ .relay :: after ∧ moves? before start = some s ∧
    s.reader = .sending input ∧ s.stage = stage ∧ s.behind = behind ∧
    (sent before start).length = place

theorem SentAt.append {ms : List Move} {place : Nat} {input : Input} {stage : Stage} {behind : Nat}
    (h : SentAt start ms place input stage behind) (more : List Move) :
    SentAt start (ms ++ more) place input stage behind := by
  obtain ⟨before, after, s, rfl, hs⟩ := h
  exact ⟨before, after ++ more, s, by rw [List.append_assoc, List.cons_append], hs⟩

/-- What is in the queue was sent at the stage at which the player is, at the slide that is on. -/
def SentHere (start : Show) (ms : List Move) (s : Show) : Prop :=
  ∀ i input, s.queue[i]? = some input →
    SentAt start ms ((taken ms start).length + i) input s.stage s.behind

/-- The player has done nothing, and nothing new is in the queue; what is not there any more was taken
out of it. -/
theorem SentHere.player {ms : List Move} {m : Move} (h : SentHere start ms s)
    (hs : moves? ms start = some s) (hplayer : SamePlayer s t)
    (hqueue : s.queue = s.takenBy m ++ t.queue) : SentHere start (ms ++ [m]) t := by
  intro i input hi
  have hplace : (taken (ms ++ [m]) start).length + i =
      (taken ms start).length + ((s.takenBy m).length + i) := by
    rw [taken, gather_append _ _ hs, gather_singleton, List.length_append, Nat.add_assoc]
    rfl
  have hi' : s.queue[(s.takenBy m).length + i]? = some input := by
    rw [hqueue, List.getElem?_append_right (Nat.le_add_right _ _), Nat.add_sub_cancel_left, hi]
  rw [hplace, hplayer.stage, hplayer.behind]
  exact (h _ input hi').append [m]

/-- The reader has sent something more. -/
theorem SentHere.send {ms : List Move} {input : Input} (h : SentHere start ms s)
    (hs : moves? ms start = some s) (hempty : start.queue = []) (hreader : s.reader = .sending input)
    (hplayer : SamePlayer s t) (hqueue : t.queue = s.queue ++ [input]) :
    SentHere start (ms ++ [.relay]) t := by
  have hsent : (sent ms start).length = (taken ms start).length + s.queue.length := by
    rw [← List.length_append, ← queue_append_sent hs, hempty, List.nil_append]
  have htaken : (taken (ms ++ [.relay]) start).length = (taken ms start).length := by
    have hnone : s.takenBy .relay = [] := rfl
    rw [taken, gather_append _ _ hs, gather_singleton, hnone, List.append_nil]
    rfl
  intro i input' hi
  rw [htaken, hplayer.stage, hplayer.behind]
  rw [hqueue] at hi
  by_cases hlt : i < s.queue.length
  · rw [List.getElem?_append_left hlt] at hi
    exact (h i input' hi).append [.relay]
  · obtain ⟨rfl, rfl⟩ : i = s.queue.length ∧ input' = input := by
      have hle := Nat.le_of_not_lt hlt
      rw [List.getElem?_append_right hle] at hi
      have hzero : i - s.queue.length = 0 := by
        have hbound := (List.getElem?_eq_some_iff.1 hi).1
        rw [List.length_singleton] at hbound
        omega
      rw [hzero] at hi
      exact ⟨by omega, (Option.some.inj hi).symm⟩
    exact ⟨ms, [], s, rfl, hs, hreader, rfl, rfl, hsent⟩

/-- Nothing in an empty queue was sent elsewhere. -/
theorem sentHere_nil {ms : List Move} (h : s.queue = []) : SentHere start ms s := by
  intro i input hi
  rw [h] at hi
  cases hi

/-- One move of a player that waits, or begins to wait. -/
theorem SentHere.moved {ms : List Move} {m : Move}
    (h : s.stage = .waiting ∨ s.stage = .lingering → SentHere start ms s)
    (hs : moves? ms start = some s) (hempty : start.queue = []) (hm : Moved s t m)
    (hwait : t.stage = .waiting ∨ t.stage = .lingering) : SentHere start (ms ++ [m]) t := by
  have hconserved := queue_append_sentBy hm
  cases hm with
  | read reader reader' queue cancelled player =>
    rw [player.stage] at hwait
    exact (h hwait).player hs player (by simpa [sentBy] using hconserved)
  | cancel reader reader' queue cancelled player | close reader reader' queue cancelled player =>
    rw [player.stage] at hwait
    exact (h hwait).player hs player (by simpa [sentBy, reader] using hconserved)
  | send reader reader' queue cancelled player =>
    rw [player.stage] at hwait
    exact (h hwait).send hs hempty reader player queue
  | resize player side =>
    rw [player.stage] at hwait
    exact (h hwait).player hs player (by simpa [sentBy] using hconserved)
  | ignore stage player side =>
    rw [player.stage] at hwait
    exact (h hwait).player hs player (by simpa [sentBy] using hconserved)
  | rest stage queue stage' sheet slide side => exact sentHere_nil (side.queue.trans queue)
  | type _ _ stage' _ _ _ | ask _ _ stage' _ _ _ | typed _ _ stage' _ _ _ | drain _ stage' _ _ _
  | wake _ _ stage' _ _ _ => simp [stage'] at hwait
  | next _ next _ | elapse _ _ next _ => simp [next.stage] at hwait
  | leave _ ended _ | stop _ ended _ | elapseOver _ _ ended _ =>
    obtain ⟨ending, hover⟩ := ended.stage
    simp [hover] at hwait

/-- **What is in the queue in a wait was sent in that wait.** -/
theorem sentAt_of_wait {ms : List Move} (hempty : start.queue = [])
    (hbusy : start.stage.isRest = false) (hs : moves? ms start = some s)
    (hwait : s.stage = .waiting ∨ s.stage = .lingering) : SentHere start ms s := by
  induction ms using List.reverseRecOn generalizing s with
  | nil =>
    cases hs
    obtain hw | hw := hwait <;> simp [hw, Stage.isRest] at hbusy
  | append_singleton ms m ih =>
    rw [moves?_append] at hs
    obtain ⟨q, hq, hqs⟩ := Option.bind_eq_some_iff.1 hs
    obtain ⟨s', hs', hnil⟩ := moves?_cons hqs
    cases hnil
    exact SentHere.moved (ih hq) hq hempty (moved_of_move? hs') hwait

/-! ## What starts a slide, and what ends the last wait -/

/-- Only a wish to go on, and a gap that is over, start a slide. -/
theorem next_of_behind_ne {m : Move} (hm : Moved s t m) (h : t.behind ≠ s.behind) :
    t.behind = s.behind + 1 ∧
      (m = .act ∧ s.stage = .waiting ∧ Received s t .advance ∨
        m = .tick ∧ (∃ gap, s.stage = .holding gap) ∧ s.cancelled = false) := by
  cases hm with
  | next stage next side => exact ⟨next.behind, .inl ⟨rfl, stage, side⟩⟩
  | elapse stage quiet next _ => exact ⟨next.behind, .inr ⟨rfl, ⟨_, stage⟩, quiet⟩⟩
  | read _ _ _ _ player | cancel _ _ _ _ player | send _ _ _ _ player | close _ _ _ _ player
  | resize player _ | ignore _ player _ => exact absurd player.behind h
  | type _ _ _ _ slide _ | ask _ _ _ _ slide _ | typed _ _ _ _ slide _ | drain _ _ _ slide _
  | rest _ _ _ _ slide _ | wake _ _ _ _ slide _ => exact absurd slide.behind h
  | leave _ ended _ | stop _ ended _ | elapseOver _ _ ended _ => exact absurd ended.behind h

/-- What ends the wait behind the last slide comes out of the queue, or is that it is closed. -/
theorem received_of_lingering {m : Move} (hm : Moved s t m) (hs : s.stage = .lingering)
    (ht : t.ending?.isSome) : s.Closed ∨ m = .act ∧ ∃ input, Received s t input := by
  have hsame (hplayer : SamePlayer s t) : False := by
    rw [ending?, hplayer.stage, hs] at ht
    cases ht
  cases hm with
  | read _ _ _ _ player | cancel _ _ _ _ player | send _ _ _ _ player | close _ _ _ _ player
  | resize player _ | ignore _ player _ => exact (hsame player).elim
  | type stage _ _ _ _ _ | ask stage _ _ _ _ _ | typed stage _ _ _ _ _ | drain stage _ _ _ _
  | rest stage _ _ _ _ _ | next stage _ _ | wake stage _ _ _ _ _ | elapse stage _ _ _
  | elapseOver stage _ _ _ =>
    rw [hs] at stage
    cases stage
  | leave _ _ side => exact .inr ⟨rfl, _, side⟩
  | stop stage _ _ =>
    simp only [hs, reduceCtorEq, exists_false, false_or, true_and] at stage
    exact .inl stage

/-- The rest that a viewer is set to. -/
theorem waiting_of_restStage (h : s.restStage = .waiting) : s.viewer.advance = .key := by
  unfold restStage at h
  split at h
  · cases h
  · cases hv : s.viewer.advance with
    | key => rfl
    | auto =>
      rw [hv] at h
      cases h

/-- A player holds only if it goes on by itself, and for the gap that it is set to. -/
theorem holding_of_restStage {gap : Delay} (h : s.restStage = .holding gap) :
    s.viewer.advance = .auto ∧ gap = .ofMillis s.viewer.gapMillis := by
  unfold restStage at h
  split at h
  · cases h
  · cases hv : s.viewer.advance with
    | key =>
      rw [hv] at h
      cases h
    | auto =>
      rw [hv] at h
      cases h
      exact ⟨rfl, rfl⟩

/-- What a player receives in a wait is the message whose place comes next. -/
theorem SentHere.head {ms : List Move} {input : Input} (h : SentHere start ms s)
    (hside : Received s t input) :
    SentAt start ms (taken ms start).length input s.stage s.behind :=
  h 0 input (by rw [hside.queue]; rfl)

/-- What is received makes way for what comes behind it. -/
theorem length_taken_lt {ms : List Move} {input : Input} (hs : moves? ms start = some s)
    (hstage : s.stage = .waiting) (hside : Received s t input) (after : List Move) :
    (taken ms start).length < (taken (ms ++ .act :: after) start).length := by
  have hone : s.takenBy .act = [input] := by simp [takenBy, hstage, hside.queue]
  rw [taken, taken, gather_append _ _ hs, gather, hone, List.length_append, List.length_append,
    List.length_singleton]
  omega

/-- **Keys count in the waits behind the slides, and nowhere else.** Let a show have been begun, and
moved by its reader, its player, its clock and its screen in whatever order. When it waits for keys,
the next slide is started by receiving a wish to go on, and that one was sent when the player was
waiting behind this very slide; its place among all that was sent is that of no other wish that starts
a slide, since what is received later comes later. When it does not wait for keys, the next slide is
started by the end of the gap behind this one, with typing not cancelled. And the wait behind the last
slide is ended by what was sent in it, unless the reader is gone. -/
theorem move?_started {pace : Pace} {viewer : Viewer} {size : Size} {slides : List Slide}
    {fails : Nat → Nat → Bool} {before : List Move} {m : Move}
    (hstart : begin? pace viewer size slides fails = some start)
    (hs : moves? before start = some s) (ht : s.move? m = some t) :
    (t.behind ≠ s.behind → t.behind = s.behind + 1 ∧
      (viewer.advance = .key → m = .act ∧ s.stage = .waiting ∧ s.queue.head? = some .advance ∧
        SentAt start before (taken before start).length .advance .waiting s.behind ∧
        ∀ after, (taken before start).length < (taken (before ++ m :: after) start).length) ∧
      (viewer.advance = .auto → m = .tick ∧ s.stage = .holding (.ofMillis viewer.gapMillis) ∧
        s.cancelled = false)) ∧
    (s.stage = .lingering → t.ending?.isSome → s.Closed ∨
      ∃ input, s.queue.head? = some input ∧
        SentAt start before (taken before start).length input .lingering s.behind) := by
  have hm := moved_of_move? ht
  have hcourse := inCourse_of_moves? hstart hs
  have hhere : s.stage = .waiting ∨ s.stage = .lingering → SentHere start before s :=
    sentAt_of_wait (queue_of_begin? hstart) (isRest_of_begin? hstart) hs
  refine ⟨fun hnext => ?_, fun hstage hend => ?_⟩
  · obtain ⟨hbehind, ⟨rfl, hstage, hside⟩ | ⟨rfl, ⟨gap, hstage⟩, hquiet⟩⟩ := next_of_behind_ne hm hnext
    · have hrest := hcourse.settled (by rw [hstage]; rfl)
      have hkey := waiting_of_restStage (hrest.symm.trans hstage)
      rw [hcourse.deck.viewer] at hkey
      have hsent := (hhere (.inl hstage)).head hside
      rw [hstage] at hsent
      exact ⟨hbehind, fun _ => ⟨rfl, hstage, by rw [hside.queue]; rfl, hsent,
        length_taken_lt hs hstage hside⟩, fun hauto => by rw [hkey] at hauto; cases hauto⟩
    · have hrest := hcourse.settled (by rw [hstage]; rfl)
      obtain ⟨hauto, rfl⟩ := holding_of_restStage (hrest.symm.trans hstage)
      rw [hcourse.deck.viewer] at hauto hstage
      exact ⟨hbehind, fun hkey => (by rw [hauto] at hkey; cases hkey),
        fun _ => ⟨rfl, hstage, hquiet⟩⟩
  · obtain hclosed | ⟨-, input, hside⟩ := received_of_lingering hm hstage hend
    · exact .inl hclosed
    · have hsent := (hhere (.inr hstage)).head hside
      rw [hstage] at hsent
      exact .inr ⟨input, by rw [hside.queue]; rfl, hsent⟩

/-- A wish to go on that comes while the first slide is typed does nothing, and the next one starts the
second slide. -/
theorem move?_started_second :
    let slides : List Slide := [⟨[], ['a']⟩, ⟨[], ['b']⟩]
    let before : List Move := [.act, .act, .act, .read .advance, .relay, .tick, .act, .act, .act,
      .read .advance, .relay]
    ∃ start s t, begin? .steady {} ⟨8, 2⟩ slides = some start ∧ moves? before start = some s ∧
      s.move? .act = some t ∧ t.behind = 1 ∧ sent before start = [.advance, .advance] ∧
      SentAt start before 1 .advance .waiting 0 := by
  intro slides before
  have hall : ((begin? .steady {} ⟨8, 2⟩ slides).bind fun start =>
      (moves? before start).bind fun s => (s.move? .act).map fun t =>
        (s.behind, t.behind, sent before start, (taken before start).length)) =
      some (0, 1, [.advance, .advance], 1) := by decide +kernel
  obtain ⟨start, hstart, hall⟩ := Option.bind_eq_some_iff.1 hall
  obtain ⟨s, hs, hall⟩ := Option.bind_eq_some_iff.1 hall
  obtain ⟨t, ht, hall⟩ := Option.map_eq_some_iff.1 hall
  simp only [Prod.mk.injEq] at hall
  obtain ⟨hbehind, hbehind', hsent, htaken⟩ := hall
  have hstarted := ((move?_started hstart hs ht).1 (by rw [hbehind, hbehind']; decide)).2.1 rfl
  rw [htaken, hbehind] at hstarted
  exact ⟨start, s, t, hstart, hs, ht, hbehind', hsent, hstarted.2.2.2.1⟩

end Typist.Show
