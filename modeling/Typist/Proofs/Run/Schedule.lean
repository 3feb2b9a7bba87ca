import Typist.Proofs.Pace.Spread
import Typist.Proofs.Run.Cancellation

/-!
# What a run waits for

A run waits after each character, at each pause and before it erases a region, and draws its delays
while it goes, from a generator that its regions hand on to each other. None of that is in the
sequence of its waits: it can be read off the tokens, and the delays are those of the sequence, drawn
one after the other from the generator that the run began with.

* `Wait`, `schedule` — the waits of tokens, in order;
* `Pace.delays` — the delays of waits, drawn from one generator, and that generator behind them;
* `filterMap_script` — the waits of the strokes of tokens are those of the schedule;
* `Run.strikeAll_asks` — strokes ask for the delays of their waits;
* `Delay.nanos_foldr` — the sum of delays, cut off where delays end;
* `typeTokens_schedule` — the delays that a run asks for.
-/

namespace Typist

/-! ## Schedules -/

/-- One wait of a run. -/
inductive Wait where
  /-- for the delay after a typed character -/
  | type
  /-- for exactly so many milliseconds -/
  | exactly (millis : UInt64)
  /-- for the delay after an erased character -/
  | erase
  deriving DecidableEq, Repr

mutual

/-- The waits of a token. A region is held when everything inside it has been played, and then erases
the text right inside it; regions in it have erased their own. -/
def Token.schedule (pace : Pace) : Token → List Wait
  | .text value => List.replicate value.length .type
  | .pause millis => [.exactly millis]
  | .scopeStart _ | .scopeEnd _ => []
  | .delete inner =>
    schedule pace inner ++ .exactly pace.hold :: List.replicate (leftText inner).length .erase

/-- The waits of tokens, in order. -/
def schedule (pace : Pace) : List Token → List Wait
  | [] => []
  | t :: ts => t.schedule pace ++ schedule pace ts

end

/-- The milliseconds that a wait is about. -/
def Wait.base (pace : Pace) : Wait → UInt64
  | .type => pace.typing
  | .exactly millis => millis
  | .erase => pace.erasing

/-- Whether the delay of a wait is spread. -/
def Wait.isSpread (pace : Pace) : Wait → Bool
  | .type => Pace.spreads pace.jitter
  | .exactly _ => false
  | .erase => Pace.spreads (pace.jitter * Pace.erasingShare)

namespace Pace

/-- The delay of a wait, if it is one, and the generator behind its draw. -/
def delay (p : Pace) : Wait → Generator → Option Delay × Generator
  | .type, g => spreadDelay p.typing p.jitter g
  | .exactly millis, g => (some (.ofMillis millis), g)
  | .erase, g => spreadDelay p.erasing (p.jitter * erasingShare) g

/-- The delays of waits, drawn from one generator in order, and the generator behind all draws. -/
def delays (p : Pace) : List Wait → Generator → List (Option Delay) × Generator
  | [], g => ([], g)
  | w :: ws, g =>
    let (d, g) := p.delay w g
    let (ds, g) := p.delays ws g
    (d :: ds, g)

theorem delays_cons (p : Pace) (w : Wait) (ws : List Wait) (g : Generator) :
    p.delays (w :: ws) g =
      ((p.delay w g).1 :: (p.delays ws (p.delay w g).2).1, (p.delays ws (p.delay w g).2).2) :=
  rfl

theorem delays_append (p : Pace) (ws more : List Wait) (g : Generator) :
    p.delays (ws ++ more) g =
      ((p.delays ws g).1 ++ (p.delays more (p.delays ws g).2).1,
        (p.delays more (p.delays ws g).2).2) := by
  induction ws generalizing g with
  | nil => rfl
  | cons w ws ih =>
    rw [List.cons_append, delays_cons, ih]
    rfl

/-- A spread delay takes one draw, and any other none. -/
theorem generator_spreadDelay (base : UInt64) (share : Float) (g : Generator) :
    (spreadDelay base share g).2 =
      { g with drawn := g.drawn + (spreads share).toNat } := by
  rw [spreadDelay]
  split_ifs with h
  · rw [h]
    rfl
  · rw [Bool.eq_false_of_not_eq_true h]
    rfl

theorem generator_delay (p : Pace) (w : Wait) (g : Generator) :
    (p.delay w g).2 = { g with drawn := g.drawn + (w.isSpread p).toNat } := by
  cases w with
  | type => exact generator_spreadDelay _ _ _
  | exactly millis => rfl
  | erase => exact generator_spreadDelay _ _ _

/-- The generator behind waits has the same key, and has been asked for one draw for each spread
delay among them. -/
theorem generator_delays (p : Pace) (ws : List Wait) (g : Generator) :
    (p.delays ws g).2 = { g with drawn := g.drawn + ws.countP (Wait.isSpread p) } := by
  induction ws generalizing g with
  | nil => rfl
  | cons w ws ih =>
    have hcount : (w :: ws).countP (Wait.isSpread p) =
        (w.isSpread p).toNat + ws.countP (Wait.isSpread p) := by
      rw [List.countP_cons, Nat.add_comm]
      cases w.isSpread p <;> rfl
    rw [delays_cons, ih, generator_delay, hcount, ← Nat.add_assoc]

/-- With a share below 999, all delays are delays. -/
theorem isSome_of_mem_delays {p : Pace} (hlt : ¬ 999.0 ≤ p.jitter) {ws : List Wait} {g : Generator} :
    ∀ d ∈ (p.delays ws g).1, d.isSome := by
  induction ws generalizing g with
  | nil => exact fun _ h => absurd h List.not_mem_nil
  | cons w ws ih =>
    intro d hd
    obtain rfl | hd := List.mem_cons.1 hd
    · cases w with
      | type => exact isSome_typingDelay hlt g
      | exactly millis => rfl
      | erase => exact isSome_erasingDelay hlt g
    · exact ih d hd

/-- Without a positive share, each wait takes exactly its milliseconds, and nothing is drawn. -/
theorem delays_of_not_spreads {p : Pace} (h : spreads p.jitter = false) (ws : List Wait)
    (g : Generator) :
    p.delays ws g = (ws.map fun w => some (.ofMillis (w.base p)), g) := by
  have herase := spreads_mul_erasingShare h
  induction ws with
  | nil => rfl
  | cons w ws ih =>
    have hw : p.delay w g = (some (.ofMillis (w.base p)), g) := by
      cases w with
      | type => simp [delay, spreadDelay, h, Wait.base]
      | exactly millis => rfl
      | erase => simp [delay, spreadDelay, herase, Wait.base]
    rw [delays_cons, hw, ih, List.map_cons]

end Pace

/-! ## The waits of strokes -/

/-- The wait of a stroke, if it waits. -/
def Stroke.wait? (pace : Pace) : Stroke → Option Wait
  | .type _ => some .type
  | .pause millis => some (.exactly millis)
  | .hold => some (.exactly pace.hold)
  | .erase => some .erase
  | .opening _ | .closing _ | .enter _ | .turn _ => none

mutual

theorem filterMap_strokes (pace : Pace) (t : Token) :
    t.strokes.filterMap (Stroke.wait? pace) = t.schedule pace := by
  cases t with
  | text value =>
    rw [Token.strokes, Token.schedule, List.filterMap_map]
    induction value with
    | nil => rfl
    | cons c cs ih => exact congrArg (Wait.type :: ·) ih
  | pause | scopeStart | scopeEnd => rfl
  | delete inner =>
    rw [Token.strokes, Token.schedule, List.filterMap_cons_none rfl, List.filterMap_append,
      filterMap_script pace inner]
    refine congrArg (schedule pace inner ++ .exactly pace.hold :: ·) ?_
    exact List.filterMap_replicate_of_some rfl

/-- The strokes of tokens wait as the schedule says. -/
theorem filterMap_script (pace : Pace) (ts : List Token) :
    (script ts).filterMap (Stroke.wait? pace) = schedule pace ts := by
  cases ts with
  | nil => rfl
  | cons t ts =>
    rw [script, schedule, List.filterMap_append, filterMap_strokes pace t,
      filterMap_script pace ts]

end

/-! ## What strokes ask for -/

/-- The delays that a run has asked for, in order. -/
def Run.delays {σ : Type} (r : Run σ) : List Delay :=
  (r.history.filterMap Act.delay?).reverse

/-- What came of a step from `r` for which these waits were due. If the run goes on, it has asked for
all their delays, and its generator is the one behind them; if it has failed, for those before one
that is none; and if it was cancelled, for the first of them. -/
def Step.Asks {σ : Type} (pace : Pace) (ws : List Wait) (r : Run σ) : Step σ → Prop
  | .goes q =>
    q.delays.map some = r.delays.map some ++ (pace.delays ws r.generator).1 ∧
      q.generator = (pace.delays ws r.generator).2
  | .ends .overflow q =>
    q.delays.map some ++ [none] <+: r.delays.map some ++ (pace.delays ws r.generator).1
  | .ends .cancelled q =>
    q.delays.map some <+: r.delays.map some ++ (pace.delays ws r.generator).1

/-- The waits of one step and of the next one are due together. -/
theorem Step.Asks.andThen {σ : Type} {pace : Pace} {ws more : List Wait} {r : Run σ} {s : Step σ}
    {next : Run σ → Step σ} (h : s.Asks pace ws r)
    (hnext : ∀ q, s = .goes q → (next q).Asks pace more q) :
    (s.andThen next).Asks pace (ws ++ more) r := by
  have happend := pace.delays_append ws more r.generator
  cases s with
  | ends halt q =>
    have hle : r.delays.map some ++ (pace.delays ws r.generator).1 <+:
        r.delays.map some ++ (pace.delays (ws ++ more) r.generator).1 := by
      rw [happend, ← List.append_assoc]
      exact List.prefix_append _ _
    cases halt with
    | overflow => exact List.IsPrefix.trans h hle
    | cancelled => exact List.IsPrefix.trans h hle
  | goes q =>
    obtain ⟨hdelays, hgenerator⟩ := h
    have hq := hnext q rfl
    -- what was asked for before the next step and what is due then is what is due at all
    have hdue : q.delays.map some ++ (pace.delays more q.generator).1 =
        r.delays.map some ++ (pace.delays (ws ++ more) r.generator).1 := by
      rw [happend, hdelays, hgenerator, List.append_assoc]
    rw [andThen_goes]
    cases hs : next q with
    | goes q' =>
      rw [hs] at hq
      refine ⟨hq.1.trans hdue, hq.2.trans ?_⟩
      rw [happend, hgenerator]
    | ends halt q' =>
      rw [hs] at hq
      cases halt with
      | overflow =>
        rw [Asks, hdue] at hq
        exact hq
      | cancelled =>
        rw [Asks, hdue] at hq
        exact hq

namespace Run

variable {σ : Type}

/-- A wait that is due is asked for, unless it is no delay or the run has been cancelled. -/
theorem suspendDrawn_asks {pace : Pace} {w : Wait} {r q : Run σ} (hdelays : q.delays = r.delays) :
    (q.suspendDrawn (pace.delay w r.generator)).Asks pace [w] r := by
  obtain ⟨drawn, hdrawn⟩ : ∃ drawn, pace.delay w r.generator = drawn := ⟨_, rfl⟩
  obtain ⟨delay?, g⟩ := drawn
  have hdue : pace.delays [w] r.generator = ([delay?], g) := by
    rw [Pace.delays_cons, hdrawn]
    rfl
  rw [hdrawn]
  cases delay? with
  | none =>
    change q.delays.map some ++ [none] <+: _
    rw [hdue, hdelays]
  | some delay =>
    have hasked (cancel : Cancel) : (({ q with generator := g } : Run σ).asked delay cancel).delays =
        r.delays ++ [delay] := by
      rw [← hdelays]
      exact List.reverse_cons
    change (suspend delay { q with generator := g }).Asks pace [w] r
    rw [suspend_eq]
    split_ifs with hfired
    · change q.delays.map some <+: _
      rw [hdelays]
      exact List.prefix_append _ _
    · dsimp only
      split_ifs with hlate
      · change List.map some (asked delay _ _).delays <+: _
        rw [hasked, hdue, List.map_append]
        exact List.prefix_rfl
      · refine ⟨?_, ?_⟩
        · rw [hasked, hdue, List.map_append]
          rfl
        · rw [hdue]
          rfl

variable [Surface σ]

theorem delays_made (x : Stroke) (r : Run σ) : (r.made x).delays = r.delays := by
  obtain ⟨acts, hacts, hbusy⟩ := exists_history_made x r
  rw [delays, hacts, List.filterMap_append, hbusy, List.nil_append]
  rfl

/-- Only waiting takes draws. -/
theorem generator_made (x : Stroke) (r : Run σ) : (r.made x).generator = r.generator := by
  cases x with
  | type | opening | pause | enter | hold | turn => rfl
  | closing tag =>
    simp only [made, closeScope]
    split
    · rfl
    · exact (foldl_removeIfEmpty_books _ _).generator
  | erase =>
    simp only [made]
    split
    · rfl
    · exact (takeOff_books _ _).generator

omit [Surface σ] in
/-- A stroke that does not erase from an empty ledger waits as its wait says. -/
theorem wait?_eq (pace : Pace) {x : Stroke} {r : Run σ} (hne : x = .erase → r.ledger ≠ []) :
    r.wait? pace x = (x.wait? pace).map fun w => pace.delay w r.generator := by
  cases x with
  | type | opening | closing | pause | enter | hold | turn => rfl
  | erase => exact if_neg (hne rfl)

theorem strike_asks (pace : Pace) {x : Stroke} {r : Run σ} (hne : x = .erase → r.ledger ≠ []) :
    (r.strike pace x).Asks pace (x.wait? pace).toList r := by
  rw [strike_eq, wait?_eq pace hne]
  cases x.wait? pace with
  | none =>
    refine ⟨?_, generator_made x r⟩
    rw [delays_made]
    exact (List.append_nil _).symm
  | some w => exact suspendDrawn_asks (delays_made x r)

/-- **Strokes ask for the delays of their waits**, if they erase nothing but what was typed. -/
theorem strikeAll_asks (pace : Pace) {xs : List Stroke} {r : Run σ} {d : Draft}
    (hlen : r.ledger.length = d.units.length) (herase : d.ErasesAbove 0 xs) :
    (r.strikeAll pace xs).Asks pace (xs.filterMap (Stroke.wait? pace)) r := by
  induction xs generalizing r d with
  | nil => exact ⟨(List.append_nil _).symm, rfl⟩
  | cons x xs ih =>
    have hne := ledger_ne_nil_of_erasesAbove hlen herase
    have hcons : (x :: xs).filterMap (Stroke.wait? pace) =
        (x.wait? pace).toList ++ xs.filterMap (Stroke.wait? pace) := by
      rw [List.filterMap_cons]
      cases x.wait? pace <;> rfl
    rw [strikeAll_cons, hcons]
    refine (strike_asks pace hne).andThen fun q hq => ih ?_ herase.2
    rw [(waits_of_strike hq).ledger]
    exact length_ledger_made hlen

end Run

/-! ## The sum of delays -/

/-- Added up one by one, delays come to their true sum, cut off at the longest delay. -/
theorem Delay.nanos_foldr (ds : List Delay) :
    (ds.foldr (fun d sum => sum + d) Delay.zero).nanos =
      min (ds.map Delay.nanos).sum Delay.longest.nanos := by
  induction ds with
  | nil => rfl
  | cons d ds ih =>
    rw [List.foldr_cons, nanos_add, ih, List.map_cons, List.sum_cons]
    omega

theorem Run.OnRecord.nanos_requested {σ : Type} [Surface σ] {s : σ} {r : Run σ}
    (h : r.OnRecord s) : r.summary.requested.nanos =
      min (r.delays.map Delay.nanos).sum Delay.longest.nanos := by
  rw [h.requested, Delay.nanos_foldr, Run.delays, List.map_reverse, List.sum_reverse]

/-! ## The delays of a run -/

/-- Types tokens on a surface, with draws from this generator. -/
def typeTokensFrom {σ : Type} [Surface σ] (g : Generator) (pace : Pace) (cancel : Cancel)
    (tokens : List Token) (surface : σ) : Outcome σ :=
  .ofStep (Run.playAll pace tokens { Run.begin pace cancel surface with generator := g })

theorem Outcome.exists_ends_of_halt {σ : Type} {step : Step σ} {halt : Halt}
    (h : (Outcome.ofStep step).halt = some halt) : ∃ r, step = .ends halt r := by
  cases step with
  | goes q => cases h
  | ends halt' q =>
    cases h
    exact ⟨q, rfl⟩

/-- What was asked for of the delays that were due, told by how the run came out. -/
theorem Step.Asks.ofStep {σ : Type} {pace : Pace} {ws : List Wait} {r : Run σ} {step : Step σ}
    (h : step.Asks pace ws r) :
    let out := Outcome.ofStep step
    let due := r.delays.map some ++ (pace.delays ws r.generator).1
    (out.halt = none →
      out.delays.map some = due ∧ out.final.generator = (pace.delays ws r.generator).2) ∧
      (out.halt = some .overflow → out.delays.map some ++ [none] <+: due) ∧
      (out.halt = some .cancelled → out.delays.map some <+: due) := by
  cases step with
  | goes q => exact ⟨fun _ => h, nofun, nofun⟩
  | ends halt q =>
    cases halt with
    | overflow => exact ⟨nofun, fun _ => h, nofun⟩
    | cancelled => exact ⟨nofun, nofun, fun _ => h⟩

/-- **What a run waits for is what its tokens say.** The waits of the tokens are those of their
schedule, and the delays that are due are drawn for them in order, all from the one generator that the
run began with. A run that comes to its end has asked for these delays, no more and no less; one that
fails, for those before the first that is none; a cancelled one, for the first of them. Each spread
delay takes one draw, and without a positive share every delay is its base delay. What the run says
that it asked for is the true sum, cut off at the longest delay. -/
theorem typeTokens_schedule {σ : Type} [Surface σ] (pace : Pace) (cancel : Cancel)
    (ts : List Token) (s : σ) (g : Generator) :
    let out := typeTokensFrom g pace cancel ts s
    let due := pace.delays (schedule pace ts) g
    typeTokensFrom pace.generator pace cancel ts s = typeTokens pace cancel ts s ∧
      (out.halt = none → out.delays.map some = due.1 ∧ out.final.generator = due.2) ∧
      (out.halt = some .overflow → out.delays.map some ++ [none] <+: due.1) ∧
      (out.halt = some .cancelled → out.delays.map some <+: due.1) ∧
      (cancel = .never → (out.halt = none ↔ ∀ d ∈ due.1, d.isSome)) ∧
      (¬ 999.0 ≤ pace.jitter → ∀ d ∈ due.1, d.isSome) ∧
      due.2 = { g with drawn := g.drawn + (schedule pace ts).countP (Wait.isSpread pace) } ∧
      (pace.jitter.isNaN ∨ pace.jitter ≤ 0.0 →
        due = ((schedule pace ts).map fun w => some (.ofMillis (w.base pace)), g)) ∧
      out.final.summary.requested.nanos =
        min (out.delays.map Delay.nanos).sum Delay.longest.nanos := by
  intro out due
  let start : Run σ := { Run.begin pace cancel s with generator := g }
  have hout : out = .ofStep (start.strikeAll pace (script ts)) :=
    congrArg Outcome.ofStep (Run.playAll_eq_strikeAll pace ts start)
  have hasks : (start.strikeAll pace (script ts)).Asks pace (schedule pace ts) start :=
    filterMap_script pace ts ▸
      Run.strikeAll_asks pace rfl (Draft.erasesAbove_script (Nat.zero_le 0) ts) (d := {})
  have hrecord : out.final.OnRecord s := by
    have hstart : start.OnRecord s := ⟨rfl, rfl⟩
    rw [hout, Outcome.final_ofStep]
    exact hstart.strikeAll pace (script ts)
  obtain ⟨hgoes, hoverflow, hcancelled⟩ := hasks.ofStep
  rw [← hout] at hgoes hoverflow hcancelled
  refine ⟨rfl, hgoes, hoverflow, hcancelled, ?_, fun hlt => Pace.isSome_of_mem_delays hlt,
    Pace.generator_delays pace (schedule pace ts) g, ?_, hrecord.nanos_requested⟩
  · intro hnever
    refine ⟨fun hhalt d hd => ?_, fun hsome => ?_⟩
    · have hd' : d ∈ out.delays.map some := (hgoes hhalt).1 ▸ hd
      obtain ⟨delay, -, rfl⟩ := List.mem_map.1 hd'
      rfl
    · cases hhalt : out.halt with
      | none => rfl
      | some halt =>
        obtain ⟨r, hstep⟩ := Outcome.exists_ends_of_halt (hout ▸ hhalt)
        obtain rfl := Run.strikeAll_never hnever hstep
        -- the delay that ended the run was due, and is none
        have hmem : none ∈ due.1 :=
          (hoverflow hhalt).subset (List.mem_append_right _ (List.mem_singleton_self _))
        exact absurd (hsome none hmem) Bool.false_ne_true
  · intro hjitter
    refine Pace.delays_of_not_spreads ?_ _ _
    rw [Pace.spreads]
    obtain hnan | hle := hjitter
    · rw [hnan]
      rfl
    · simp [hle]

/-- A region in a region. The inner region erases its own character, and the outer one only the two
that stand right inside it. -/
theorem typeTokens_schedule_nested :
    let pace : Pace := { jitter := 0.5, seed := some 12 }
    let ts : List Token := [.text ['a'], .delete [.text ['b'], .pause 7, .delete [.text ['c']],
      .scopeStart .bold, .text ['d']], .scopeEnd .bold]
    let waits : List Wait := [.type, .type, .exactly 7, .type, .exactly 160, .erase, .type,
      .exactly 160, .erase, .erase]
    schedule pace ts = waits ∧ waits.countP (Wait.isSpread pace) = 7 ∧
      (typeTokens pace .never ts Sheet.blank).halt = none ∧
      (typeTokens pace .never ts Sheet.blank).delays.map some =
        (pace.delays waits pace.generator).1 ∧
      (typeTokens pace .never ts Sheet.blank).final.generator =
        (pace.delays waits pace.generator).2 := by
  intro pace ts waits
  have hwaits : schedule pace ts = waits := rfl
  have hjitter : ¬ 999.0 ≤ pace.jitter := by decide +kernel
  have hspread : waits.countP (Wait.isSpread pace) = 7 := by decide +kernel
  obtain ⟨hout, hgoes, -, -, hnever, hsome, -, -, -⟩ :=
    typeTokens_schedule pace .never ts Sheet.blank pace.generator
  rw [hout] at hgoes hnever
  rw [hwaits] at hgoes hnever hsome
  have hhalt := (hnever rfl).2 (hsome hjitter)
  obtain ⟨hdelays, hgenerator⟩ := hgoes hhalt
  exact ⟨hwaits, hspread, hhalt, hdelays, hgenerator⟩

end Typist
