import Typist.Proofs.Pace.Spread
import Typist.Proofs.Run.Script
import Typist.Sheet

/-!
# What can make a run fail

A run comes to its end or is cancelled, unless it draws a delay that is none. That is the one way in
which it can fail, and no token, no cancellation and no surface has a part in it: it takes a share of
999 or more. Below that the longest base delay and the largest draw make a delay still.

* `Run.strike_eq_overflow_iff` — a stroke fails where the delay that it draws is none;
* `typeTokens_overflow_iff` — so does a run;
* `typeTokens_halt_of_jitter` — with a share below 999 a run comes to its end or is cancelled.
-/

namespace Typist

namespace Run

variable {σ : Type}

/-- A wait ends a run by a cancellation only. -/
theorem suspend_ne_overflow (delay : Delay) (r r' : Run σ) :
    r.suspend delay ≠ .ends .overflow r' := by
  rw [suspend_eq]
  split
  · nofun
  · dsimp only
    split <;> nofun

theorem suspendDrawn_eq_overflow_iff {drawn : Option Delay × Generator} {r r' : Run σ} :
    r.suspendDrawn drawn = .ends .overflow r' ↔ drawn.1 = none ∧ r' = r := by
  obtain ⟨delay?, g⟩ := drawn
  cases delay? with
  | none =>
    refine ⟨fun h => ⟨rfl, ?_⟩, fun h => by rw [h.2]; rfl⟩
    cases h
    rfl
  | some delay => exact iff_of_false (suspend_ne_overflow _ _ _) nofun

variable [Surface σ] {pace : Pace}

/-- A stroke fails if it draws a delay that is none, and has done then what it does. -/
theorem strike_eq_overflow_iff {x : Stroke} {r r' : Run σ} :
    r.strike pace x = .ends .overflow r' ↔
      (∃ g, r.wait? pace x = some (none, g)) ∧ r' = r.made x := by
  rw [strike_eq]
  cases hw : r.wait? pace x with
  | none => exact iff_of_false nofun (by simp)
  | some drawn =>
    obtain ⟨delay?, g⟩ := drawn
    dsimp only
    rw [suspendDrawn_eq_overflow_iff]
    simp

/-- Strokes fail if one of them does, and those before it have gone on. -/
theorem strikeAll_eq_overflow_iff {xs : List Stroke} {r r' : Run σ} :
    r.strikeAll pace xs = .ends .overflow r' ↔
      ∃ done x rest q, xs = done ++ x :: rest ∧ r.strikeAll pace done = .goes q ∧
        (∃ g, q.wait? pace x = some (none, g)) ∧ r' = q.made x := by
  refine ⟨fun h => ?_, ?_⟩
  · obtain ⟨done, x, rest, q, hxs, hdone, hx⟩ := strikeAll_eq_ends h
    exact ⟨done, x, rest, q, hxs, hdone, strike_eq_overflow_iff.1 hx⟩
  · rintro ⟨done, x, rest, q, rfl, hdone, hx⟩
    rw [strikeAll_append, hdone, Step.andThen_goes, strikeAll_cons, strike_eq_overflow_iff.2 hx,
      Step.andThen_ends]

omit [Surface σ] in
/-- Delays that are not drawn are delays. -/
theorem wait?_ne_none (hpace : ∀ g, (pace.typingDelay g).1.isSome ∧ (pace.erasingDelay g).1.isSome)
    (x : Stroke) (r : Run σ) (g : Generator) : r.wait? pace x ≠ some (none, g) := by
  intro hw
  cases x with
  | opening | closing | enter | turn => cases hw
  | pause | hold => cases hw
  | type value =>
    have hsome := (hpace r.generator).1
    rw [Option.some.inj hw] at hsome
    cases hsome
  | erase =>
    have hsome := (hpace r.generator).2
    rw [wait?] at hw
    split at hw
    · cases hw
    · rw [Option.some.inj hw] at hsome
      cases hsome

end Run

section

variable {σ : Type} [Surface σ]

/-- **A run fails exactly where the delay that it draws is none.** -/
theorem typeTokens_overflow_iff {pace : Pace} {cancel : Cancel} {ts : List Token} {s : σ} :
    (typeTokens pace cancel ts s).halt = some .overflow ↔
      ∃ done x rest q g, script ts = done ++ x :: rest ∧
        (Run.begin pace cancel s).strikeAll pace done = .goes q ∧
        q.wait? pace x = some (none, g) := by
  have hhalt (step : Step σ) :
      (Outcome.ofStep step).halt = some .overflow ↔ ∃ r, step = .ends .overflow r := by
    cases step with
    | goes r => exact iff_of_false nofun nofun
    | ends halt r => cases halt <;> simp [Outcome.ofStep]
  rw [typeTokens, Run.playAll_eq_strikeAll, hhalt]
  refine ⟨?_, ?_⟩
  · rintro ⟨r, h⟩
    obtain ⟨done, x, rest, q, hxs, hdone, ⟨g, hg⟩, -⟩ := Run.strikeAll_eq_overflow_iff.1 h
    exact ⟨done, x, rest, q, g, hxs, hdone, hg⟩
  · rintro ⟨done, x, rest, q, g, hxs, hdone, hg⟩
    exact ⟨_, Run.strikeAll_eq_overflow_iff.2 ⟨done, x, rest, q, hxs, hdone, ⟨g, hg⟩, rfl⟩⟩

/-- **With a share below 999, or one that is not a number, no setting and no token makes a run fail**:
every delay that is drawn is a delay, so the run comes to its end, or is cancelled. -/
theorem typeTokens_halt_of_jitter {pace : Pace} (hjitter : ¬ 999.0 ≤ pace.jitter) (cancel : Cancel)
    (ts : List Token) (s : σ) :
    ((typeTokens pace cancel ts s).halt = none ∨
      (typeTokens pace cancel ts s).halt = some .cancelled) ∧
      ∀ g, (pace.typingDelay g).1.isSome ∧ (pace.erasingDelay g).1.isSome := by
  have hpace (g : Generator) : (pace.typingDelay g).1.isSome ∧ (pace.erasingDelay g).1.isSome :=
    ⟨Pace.isSome_typingDelay hjitter g, Pace.isSome_erasingDelay hjitter g⟩
  refine ⟨?_, hpace⟩
  cases hhalt : (typeTokens pace cancel ts s).halt with
  | none => exact .inl rfl
  | some halt =>
    cases halt with
    | cancelled => exact .inr rfl
    | overflow =>
      obtain ⟨done, x, rest, q, g, -, -, hg⟩ := typeTokens_overflow_iff.1 hhalt
      exact absurd hg (Run.wait?_ne_none hpace x q g)

end

/-- The longest base delays, and a share just below the bound. -/
theorem typeTokens_halt_of_jitter_steep :
    let longest : UInt64 := 18446744073709551615
    let pace : Pace := { typing := longest, erasing := longest, jitter := 998.9, seed := some 12 }
    let out := typeTokens pace .never [.delete [.text ['a']]] Sheet.blank
    ¬ 999.0 ≤ pace.jitter ∧ (out.halt = none ∨ out.halt = some .cancelled) ∧
      ∀ g, (pace.typingDelay g).1.isSome ∧ (pace.erasingDelay g).1.isSome := by
  intro longest pace out
  have hjitter : ¬ 999.0 ≤ pace.jitter := by decide +kernel
  exact ⟨hjitter, typeTokens_halt_of_jitter hjitter .never [.delete [.text ['a']]] Sheet.blank⟩

/-- An infinite share makes a run fail at the first draw above zero. -/
theorem typeTokens_overflow_infinite :
    (typeTokens { jitter := 1.0 / 0.0, seed := some 12 } .never [.text ['a', 'b']] Sheet.blank).halt =
      some .overflow := by
  decide +kernel

end Typist
