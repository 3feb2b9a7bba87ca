import Typist.Proofs.Show.Staging
import Typist.Show.Course

/-!
# Quitting

When somebody quits, typing is cancelled first, and only then is the wish put into the queue; and the
player throws away what is in the queue behind each slide. So the wish itself may be lost, wherever
these steps fall between those of the player. What is left of the show is bounded all the same, because
once typing is cancelled no wait is seen to its end, and nothing but the wish is sent any more.

* `Stage.burst` — what the player does to its projector before it gets to a wait;
* `Show.Within` — a show that has done some of a burst and no more;
* `Show.Fading` — what can have become of a show since its typing was cancelled;
* `Show.moves?_cancelled` — a quit is never lost.
-/

namespace Typist

/-- What the player does to its projector before it gets to the next wait. -/
def Stage.burst : Stage → List Act
  | .typing acts _ => acts.takeWhile (·.delay?.isNone)
  | _ => []

theorem Stage.burst_of_isTyped {stage : Stage} (h : stage.isTyped) : stage.burst = [] := by
  cases stage with
  | typing acts waits => cases h
  | resting | draining | waiting | holding | lingering | «over» => rfl

namespace Show

variable {s t u : Show}

/-! ## Bursts -/

/-- A show behind so many slides that has done some of a burst to a sheet. What it does next belongs
to the burst too. -/
structure Within (behind : Nat) (sheet : Sheet) (burst : List Act) (t : Show) : Prop where
  behind : t.behind = behind
  sheet : ∃ done left, burst = done ++ left ∧
    t.projector.sheet = done.foldl (fun sheet act => act.onto sheet) sheet ∧
    (t.stage.burst = left ∨ t.stage.burst = [])

section

variable {behind : Nat} {sheet : Sheet} {burst : List Act}

theorem Within.refl (s : Show) : Within s.behind s.projector.sheet s.stage.burst s :=
  ⟨rfl, [], _, rfl, rfl, .inl rfl⟩

/-- The sheet is what it was, and the stage is too, or has nothing to do to it before the next wait. -/
theorem Within.same (h : Within behind sheet burst t) (hslide : SameSlide t u)
    (hsheet : u.projector.sheet = t.projector.sheet)
    (hburst : u.stage.burst = t.stage.burst ∨ u.stage.burst = []) :
    Within behind sheet burst u where
  behind := hslide.behind.trans h.behind
  sheet := by
    obtain ⟨done, left, hall, hdone, hleft⟩ := h.sheet
    refine ⟨done, left, hall, hsheet.trans hdone, ?_⟩
    obtain hsame | hnil := hburst
    · rw [hsame]
      exact hleft
    · exact .inr hnil

/-- The first act of the burst that is left was done. -/
theorem Within.did (h : Within behind sheet burst t) {act : Act} {acts : List Act}
    (hburst : t.stage.burst = act :: acts) (hslide : SameSlide t u)
    (hsheet : u.projector.sheet = act.onto t.projector.sheet) (hburst' : u.stage.burst = acts) :
    Within behind sheet burst u where
  behind := hslide.behind.trans h.behind
  sheet := by
    obtain ⟨done, left, rfl, hdone, hleft | hnil⟩ := h.sheet
    · refine ⟨done ++ [act], acts, ?_, ?_, .inl hburst'⟩
      · rw [← hleft, hburst, List.append_assoc, List.singleton_append]
      · rw [hsheet, hdone, List.foldl_append]
        rfl
    · rw [hnil] at hburst
      cases hburst

theorem Within.next (hnext : Next s t) :
    Within (s.behind + 1) .blank (t.scene.run.acts.takeWhile (·.delay?.isNone)) t :=
  ⟨hnext.behind, [], _, rfl, hnext.sheet, .inl (by rw [hnext.stage]; rfl)⟩

/-- What has been done of the burst. -/
theorem Within.exists_prefix (h : Within behind sheet burst t) :
    ∃ done, done <+: burst ∧
      t.projector.sheet = done.foldl (fun sheet act => act.onto sheet) sheet := by
  obtain ⟨done, left, rfl, hdone, -⟩ := h.sheet
  exact ⟨done, List.prefix_append done left, hdone⟩

end

/-! ## After a cancellation -/

/-- The slide that is on, or the first burst of the next one: what can have become of a show `s` since
its typing was cancelled. Only a player that was waiting can have gone on, and only once. -/
inductive Fading (s t : Show) : Prop
  /-- the same slide is on -/
  | stay (within : Within s.behind s.projector.sheet s.stage.burst t)
      (asked : t.stage = .waiting → .advance ∈ t.queue → s.stage = .waiting)
  /-- the next slide is on, since the player was asked to go on before -/
  | pass (waiting : s.stage = .waiting)
      (within : Within (s.behind + 1) .blank
        (t.scene.run.acts.takeWhile (·.delay?.isNone)) t)
      (unasked : t.stage = .waiting → .advance ∉ t.queue)

/-- Neither the slide nor its sheet has changed; and if the player waits and was asked to go on, it did
and was before. -/
theorem Fading.same (h : Fading s t) (hslide : SameSlide t u)
    (hsheet : u.projector.sheet = t.projector.sheet)
    (hburst : u.stage.burst = t.stage.burst ∨ u.stage.burst = [])
    (hasked : u.stage = .waiting → .advance ∈ u.queue → t.stage = .waiting ∧ .advance ∈ t.queue) :
    Fading s u := by
  cases h with
  | stay within asked =>
    refine .stay (within.same hslide hsheet hburst) fun hw hmem => ?_
    obtain ⟨hw', hmem'⟩ := hasked hw hmem
    exact asked hw' hmem'
  | pass waiting within unasked =>
    rw [← hslide.scene] at within
    refine .pass waiting (within.same hslide hsheet hburst) fun hw hmem => ?_
    obtain ⟨hw', hmem'⟩ := hasked hw hmem
    exact unasked hw' hmem'

theorem Fading.player (h : Fading s t) (hplayer : SamePlayer t u)
    (hqueue : .advance ∈ u.queue → .advance ∈ t.queue) : Fading s u :=
  h.same hplayer.toSameSlide hplayer.sheet (.inl (by rw [hplayer.stage]))
    fun hw hmem => ⟨hplayer.stage ▸ hw, hqueue hmem⟩

theorem Fading.ended (h : Fading s t) (hended : Ended t u) : Fading s u := by
  obtain ⟨ending, hover⟩ := hended.stage
  exact h.same hended.toSameSlide hended.sheet (.inr (by rw [hover]; rfl))
    fun hw => by rw [hover] at hw; cases hw

theorem Fading.did (h : Fading s t) {act : Act} {acts : List Act} {waits : Nat}
    (hstage : t.stage = .typing (act :: acts) waits) (hbusy : act.delay? = none)
    (hstage' : u.stage = .typing acts waits) (hsheet : u.projector.sheet = act.onto t.projector.sheet)
    (hslide : SameSlide t u) : Fading s u := by
  have hburst : t.stage.burst = act :: acts.takeWhile (·.delay?.isNone) := by
    rw [hstage, Stage.burst, List.takeWhile_cons, hbusy]
    rfl
  have hburst' : u.stage.burst = acts.takeWhile (·.delay?.isNone) := by
    rw [hstage']
    rfl
  have hbusy' : u.stage ≠ .waiting := by
    rw [hstage']
    exact fun h => nomatch h
  cases h with
  | stay within asked =>
    exact .stay (within.did hburst hslide hsheet hburst') fun hw => absurd hw hbusy'
  | pass waiting within unasked =>
    rw [← hslide.scene] at within
    exact .pass waiting (within.did hburst hslide hsheet hburst') fun hw => absurd hw hbusy'

theorem Fading.next (h : Fading s t) (hstage : t.stage = .waiting) (hnext : Next t u)
    (hside : Received t u .advance) : Fading s u := by
  have hmem : .advance ∈ t.queue := by
    rw [hside.queue]
    exact List.mem_cons_self
  cases h with
  | stay within asked =>
    have hbehind : t.behind + 1 = s.behind + 1 := congrArg (· + 1) within.behind
    exact .pass (asked hstage hmem) (hbehind ▸ Within.next hnext) fun hw => by
      rw [hnext.stage] at hw
      cases hw
  | pass _ _ unasked => exact absurd hmem (unasked hstage)

/-- Once typing is cancelled no wait is seen to its end. -/
theorem ne_tick_of_cancelled {m : Move} (hm : Moved s t m) (h : s.cancelled = true) : m ≠ .tick := by
  rintro rfl
  cases hm with
  | wake _ quiet | elapse _ quiet | elapseOver _ quiet => simp [h] at quiet

/-- Typing that is cancelled stays so. -/
theorem cancelled_moved {m : Move} (hm : Moved s t m) (h : s.cancelled = true) :
    t.cancelled = true := by
  cases hm with
  | cancel _ _ _ cancelled _ => exact cancelled
  | read _ _ _ cancelled _ | send _ _ _ cancelled _ | close _ _ _ cancelled _ =>
    exact cancelled.trans h
  | resize _ side | type _ _ _ _ _ side | ask _ _ _ _ _ side | typed _ _ _ _ _ side
  | rest _ _ _ _ _ side | stop _ _ side | wake _ _ _ _ _ side | elapse _ _ _ side
  | elapseOver _ _ _ side => exact side.cancelled.trans h
  | drain _ _ _ _ side | next _ _ side | ignore _ _ side | leave _ _ side =>
    exact side.cancelled.trans h

/-- **No move of a cancelled show brings back what it has lost.** -/
theorem Fading.moved {m : Move} (hm : Moved t u m) (h : Fading s t) (hfollows : FollowsReader t)
    (hcancelled : t.cancelled = true) : Fading s u := by
  have hfired : t.reader.hasFired = true := hfollows.symm.trans hcancelled
  cases hm with
  | read reader _ _ _ _ | cancel reader _ _ _ _ =>
    rw [reader] at hfired
    cases hfired
  | @send input reader _ queue _ player =>
    have hquit : input = .quit := Reader.quit_of_hasFired (reader ▸ hfired)
    exact h.player player fun hmem => by simpa [queue, hquit] using hmem
  | close _ _ queue _ player => exact h.player player fun hmem => queue ▸ hmem
  | resize player side => exact h.player player fun hmem => side.queue ▸ hmem
  | type stage busy stage' sheet slide side => exact h.did stage busy stage' sheet slide
  | typed _ _ stage' sheet slide _ | drain _ stage' sheet slide _ =>
    refine h.same slide sheet (.inr (by rw [stage']; rfl)) fun hw => ?_
    rw [stage'] at hw
    cases hw
  | rest _ queue stage' sheet slide side =>
    have hburst : u.stage.burst = [] := by rw [stage', Stage.burst_of_isTyped t.isTyped_restStage]
    refine h.same slide sheet (.inr hburst) fun _ hmem => ?_
    rw [side.queue, queue] at hmem
    cases hmem
  | next stage next side => exact h.next stage next side
  | ignore _ player side =>
    refine h.player player fun hmem => ?_
    rw [side.queue]
    exact List.mem_cons_of_mem _ hmem
  | leave _ ended _ | stop _ ended _ => exact h.ended ended
  | ask _ quiet | wake _ quiet | elapse _ quiet | elapseOver _ quiet =>
    simp [hcancelled] at quiet

/-- Since its typing was cancelled, a show has faded, and no wait was seen to its end. -/
theorem Fading.moves? {ms : List Move} (h : Fading s t) (hfollows : FollowsReader t)
    (hcancelled : t.cancelled = true) (hms : moves? ms t = some u) :
    Fading s u ∧ u.cancelled = true ∧ .tick ∉ ms := by
  induction ms generalizing t with
  | nil =>
    cases hms
    exact ⟨h, hcancelled, List.not_mem_nil⟩
  | cons m ms ih =>
    obtain ⟨v, hv, hu⟩ := moves?_cons hms
    have hm := moved_of_move? hv
    obtain ⟨hfading, hstill, hnot⟩ :=
      ih (h.moved hm hfollows hcancelled) (hfollows.moved hm) (cancelled_moved hm hcancelled) hu
    refine ⟨hfading, hstill, fun hmem => ?_⟩
    obtain rfl | hmem := List.mem_cons.1 hmem
    · exact ne_tick_of_cancelled hm hcancelled rfl
    · exact hnot hmem

/-! ## When the reader is gone -/

/-- When the reader is gone there is something in the queue, or it is closed. -/
theorem receive?_isSome_of_gone (hgone : s.reader = .gone) : s.receive?.isSome := by
  unfold receive?
  split
  · rfl
  · rw [if_pos hgone]
    rfl

/-- The player has something to do when the reader is gone. -/
theorem act?_isSome_of_gone (hgone : s.reader = .gone) (hcancelled : s.cancelled = true)
    (hend : s.ending? = none) : s.act?.isSome := by
  have hreceive := receive?_isSome_of_gone hgone
  unfold act?
  cases hs : s.stage with
  | typing acts waits => rfl
  | resting delay acts waits => simp [hcancelled]
  | draining =>
    dsimp only
    split <;> rfl
  | waiting => simpa using hreceive
  | holding gap => simp [hcancelled]
  | lingering => simpa using hreceive
  | «over» ending => simp [ending?, hs] at hend

/-- The player's moves leave a reader that is gone where it is. -/
theorem gone_of_act? (h : s.act? = some t) (hgone : s.reader = .gone) (hfollows : FollowsReader s) :
    t.reader = .gone ∧ FollowsReader t := by
  have hm := moved_act? h
  refine ⟨?_, hfollows.moved hm⟩
  cases hm with
  | type _ _ _ _ _ side | ask _ _ _ _ _ side | typed _ _ _ _ _ side | rest _ _ _ _ _ side
  | stop _ _ side => exact side.reader.trans hgone
  | drain _ _ _ _ side | next _ _ side | ignore _ _ side | leave _ _ side =>
    exact side.reader.trans hgone

/-- When the reader is gone the player brings the show to its end by itself. -/
theorem exists_ending_of_gone (s : Show) (hgone : s.reader = .gone) (hfollows : FollowsReader s) :
    ∃ n t, Show.moves? (List.replicate n .act) s = some t ∧ t.ending?.isSome := by
  cases hend : s.ending? with
  | some ending => exact ⟨0, s, rfl, by rw [hend]; rfl⟩
  | none =>
    have hcancelled : s.cancelled = true := hfollows.trans (by rw [hgone]; rfl)
    obtain ⟨t, ht⟩ := Option.isSome_iff_exists.1 (act?_isSome_of_gone hgone hcancelled hend)
    obtain ⟨hgone', hfollows'⟩ := gone_of_act? ht hgone hfollows
    -- each act uses up some of what is left to do
    have hless := weight_act? ht
    obtain ⟨n, u, hu, hended⟩ := exists_ending_of_gone t hgone' hfollows'
    refine ⟨n + 1, u, ?_, hended⟩
    rw [List.replicate_succ, Show.moves?]
    exact (congrArg (Option.bind · _) ht).trans hu
termination_by s.weight

/-- A reader that has cancelled the typing has two more steps to do at most. -/
theorem exists_gone_of_cancelled (hcancelled : s.cancelled = true) (hfollows : FollowsReader s) :
    ∃ n t, Show.moves? (List.replicate n .relay) s = some t ∧ t.reader = .gone ∧ FollowsReader t := by
  have hfired : s.reader.hasFired = true := hfollows.symm.trans hcancelled
  cases hr : s.reader with
  | gone => exact ⟨0, s, rfl, hr, hfollows⟩
  | closing =>
    refine ⟨1, { s with reader := .gone }, ?_, rfl, hcancelled⟩
    simp [Show.moves?, move?, relay?, hr]
  | sending input =>
    have hquit : input = .quit := Reader.quit_of_hasFired (hr ▸ hfired)
    refine ⟨2, { s with queue := s.queue ++ [input], reader := .gone }, ?_, rfl, hcancelled⟩
    simp [List.replicate, Show.moves?, move?, relay?, hr, hquit]
  | listening | cancelling =>
    rw [hr] at hfired
    cases hfired

/-- **A quit is never lost.** Let a show have been begun, and moved by its reader, its player, its clock
and its screen in whatever order. When the reader is gone, typing is cancelled, and the player never
waits for something that cannot come. And once typing is cancelled, the reader and the player bring the
show to its end by themselves; and whatever else is done, no wait is seen to its end any more; of the
slide that is on nothing is typed past the next wait; no other slide is started, unless the player was
waiting already, and then one is, of which nothing is typed past its first wait; and no slide that was
typed to its end after that is followed by another one, since the player never waits with a wish to go
on in the queue. -/
theorem moves?_cancelled {pace : Pace} {viewer : Viewer} {size : Size} {slides : List Slide}
    {fails : Nat → Nat → Bool} {before : List Move} {start s : Show}
    (hstart : begin? pace viewer size slides fails = some start)
    (hs : Show.moves? before start = some s) :
    (s.reader = .gone → s.cancelled = true ∧
      (s.stage = .waiting ∨ s.stage = .lingering → s.receive?.isSome) ∧
      (s.ending? = none → s.act?.isSome)) ∧
    (s.cancelled = true →
      (∃ n k t, Show.moves? (List.replicate n .relay ++ List.replicate k .act) s = some t ∧
        t.ending?.isSome) ∧
      ∀ (ms : List Move) (t : Show), Show.moves? ms s = some t →
        .tick ∉ ms ∧
        (t.behind = s.behind ∧
            (∃ done, done <+: s.stage.burst ∧
              t.projector.sheet = done.foldl (fun sheet act => act.onto sheet) s.projector.sheet) ∨
          t.behind = s.behind + 1 ∧ s.stage = .waiting ∧
            (∃ done, done <+: t.scene.run.acts.takeWhile (·.delay?.isNone) ∧
              t.projector.sheet = done.foldl (fun sheet act => act.onto sheet) .blank)) ∧
        (t.stage = .waiting → .advance ∈ t.queue → s.stage = .waiting ∧ t.behind = s.behind)) := by
  have hfollows := (inCourse_of_moves? hstart hs).follows
  refine ⟨fun hgone => ?_, fun hcancelled => ⟨?_, fun ms t ht => ?_⟩⟩
  · have hcancelled : s.cancelled = true := hfollows.trans (by rw [hgone]; rfl)
    exact ⟨hcancelled, fun _ => receive?_isSome_of_gone hgone,
      act?_isSome_of_gone hgone hcancelled⟩
  · obtain ⟨n, u, hu, hgone, hfollows'⟩ := exists_gone_of_cancelled hcancelled hfollows
    obtain ⟨k, t, ht, hended⟩ := exists_ending_of_gone u hgone hfollows'
    exact ⟨n, k, t, by rw [moves?_append, hu, Option.bind_some, ht], hended⟩
  · have hbegin : Fading s s := .stay (.refl s) fun hw _ => hw
    obtain ⟨hfading, -, hnot⟩ := hbegin.moves? hfollows hcancelled ht
    cases hfading with
    | stay within asked =>
      exact ⟨hnot, .inl ⟨within.behind, within.exists_prefix⟩,
        fun hw hmem => ⟨asked hw hmem, within.behind⟩⟩
    | pass waiting within unasked =>
      exact ⟨hnot, .inr ⟨within.behind, waiting, within.exists_prefix⟩,
        fun hw hmem => absurd hmem (unasked hw)⟩

/-- Somebody asks to go on and then quits, and the second slide is typed without a wait; behind it the
player throws the wish to quit away. -/
theorem moves?_cancelled_thrown_away :
    let slides : List Slide := [⟨[], ['a']⟩, ⟨[], []⟩, ⟨[], ['b']⟩]
    let before : List Move := [.act, .act, .act, .tick, .act, .act, .read .advance, .relay,
      .read .quit, .relay]
    let ms : List Move := [.act, .act, .relay, .act, .act, .relay]
    ∃ start s t, begin? .steady {} ⟨8, 2⟩ slides = some start ∧ Show.moves? before start = some s ∧
      s.cancelled = true ∧ Show.moves? ms s = some t ∧ t.behind = s.behind + 1 ∧
      t.stage = .waiting ∧ t.queue = [] ∧ t.reader = .gone ∧ .tick ∉ ms ∧ t.act?.isSome := by
  intro slides before ms
  have hbefore : ((begin? .steady {} ⟨8, 2⟩ slides).bind (Show.moves? before)).map
      (fun s => (s.cancelled, s.behind)) = some (true, 0) := by decide +kernel
  have hafter : ((begin? .steady {} ⟨8, 2⟩ slides).bind (Show.moves? (before ++ ms))).map
      (fun t => (t.behind, t.stage, t.queue, t.reader)) = some (1, .waiting, [], .gone) := by
    decide +kernel
  obtain ⟨s, hs, hpair⟩ := Option.map_eq_some_iff.1 hbefore
  obtain ⟨start, hstart, hs⟩ := Option.bind_eq_some_iff.1 hs
  obtain ⟨hcancelled, hbehind⟩ := Prod.mk.inj hpair
  rw [hstart, Option.bind_some, moves?_append, hs, Option.bind_some] at hafter
  obtain ⟨t, ht, hall⟩ := Option.map_eq_some_iff.1 hafter
  simp only [Prod.mk.injEq] at hall
  obtain ⟨hbehind', hstage, hqueue, hgone⟩ := hall
  have hend : t.ending? = none := by rw [ending?, hstage]
  have hmoves : Show.moves? (before ++ ms) start = some t := by
    rw [moves?_append, hs, Option.bind_some, ht]
  exact ⟨start, s, t, hstart, hs, hcancelled, ht, by rw [hbehind', hbehind], hstage, hqueue, hgone,
    (((moves?_cancelled hstart hs).2 hcancelled).2 ms t ht).1,
    ((moves?_cancelled hstart hmoves).1 hgone).2.2 hend⟩

end Show

end Typist
