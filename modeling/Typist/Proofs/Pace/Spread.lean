import Typist.Pace
import Typist.Proofs.Double.Arithmetic

/-!
# How far delays are spread

A spread delay goes through five operations on doubles, each of which rounds. The bounds that matter
are doubles: the longest base delay is `2 ^ 64` milliseconds when it has become a double, the largest
share below 999 spreads it by less than 999 times that, and a thousandth of the sum is less than
`2 ^ 64` seconds still. With a share of 999 it would not be.

* `Delay.isSome_ofSeconds?_iff` — which numbers of seconds are delays;
* `Generator.draw_mem` — a draw is between -1 and 1;
* `Pace.isSome_spread?` — with a share below 999 a spread delay is a delay;
* `Pace.forall_isSome_spread?_iff` — and with no other share it is one for all base delays and draws;
* `Pace.isSome_typingDelay`, `Pace.isSome_erasingDelay` — the delays that a run draws.
-/

namespace Typist

open Double Float.Model Float.Model.UnpackedFloat

/-! ## Which numbers of seconds are delays -/

namespace Delay

theorem roundDiv_le (num den : ℕ) : roundDiv .toEven num den ≤ num / den + 1 := by
  simp only [roundDiv]
  split_ifs <;> omega

/-- Rounding to nanoseconds does not lead out of the range of delays. -/
theorem scaled_lt_iff {p : Parts} (hm : p.significand < 2 ^ 53) :
    p.scaled .toEven nanosPerSecond < UInt64.size * nanosPerSecond ↔
      (p.significand * 2 ^ p.exponent : ℚ) < 2 ^ 64 := by
  rw [Parts.scaled]
  by_cases he : 0 ≤ p.exponent
  · obtain ⟨k, hk⟩ := Int.eq_ofNat_of_zero_le he
    rw [if_pos he, hk, Int.toNat_natCast, Nat.pow_eq, Nat.mul_lt_mul_right (by decide), zpow_natCast,
      ← Nat.cast_lt (α := ℚ)]
    push_cast
    exact Iff.rfl
  · -- a fraction of the second has a place of its own, so the number of seconds is below 2 ^ 53
    rw [if_neg he]
    refine iff_of_true ?_ ?_
    · have hround := roundDiv_le (p.significand * nanosPerSecond) (Nat.pow 2 p.exponent.natAbs)
      have hdiv := Nat.div_le_self (p.significand * nanosPerSecond) (Nat.pow 2 p.exponent.natAbs)
      simp only [nanosPerSecond, UInt64.size] at hround hdiv ⊢
      omega
    · have hpow : (2 : ℚ) ^ p.exponent ≤ 1 := zpow_le_one_of_nonpos₀ one_le_two (by omega)
      have hm' : (p.significand : ℚ) < 2 ^ 53 := by exact_mod_cast hm
      calc (p.significand : ℚ) * 2 ^ p.exponent ≤ p.significand * 1 :=
            mul_le_mul_of_nonneg_left hpow (Nat.cast_nonneg _)
        _ < 2 ^ 64 := by linarith

/-- A number of seconds is a delay if it is not below zero, and below `2 ^ 64`. -/
theorem isSome_ofSeconds?_iff (f : Float) :
    (ofSeconds? f).isSome ↔ ∃ x, value? (unpacked f) = some x ∧ 0 ≤ x ∧ x < 2 ^ 64 := by
  rw [ofSeconds?, parts?_eq]
  have hfits := fits_unpacked f
  cases hu : unpacked f with
  | notANumber => simp [partsOf?, value?]
  | infinity s => simp [partsOf?, value?]
  | zero s =>
    simp [partsOf?, value?, scaled_lt_iff]
  | finite s m e hm =>
    rw [hu] at hfits
    have hpos : (0 : ℚ) < m * 2 ^ e := by positivity
    cases s with
    | positive =>
      have hlt := scaled_lt_iff (p := ⟨false, m, e⟩) hfits.1.lt
      simp [partsOf?, value?, isNegative, unit, hpos.le, hlt]
    | negative => simp [partsOf?, value?, isNegative, unit, hm.ne', hpos.not_ge]

end Delay

/-! ## Draws -/

namespace Generator

theorem value?_one : value? (unpacked 1.0) = some 1 := by
  rw [show unpacked 1.0 = .finite .positive (2 ^ 52) (-52) (by decide) from rfl]
  norm_num [value?, unit]

theorem value?_neg_one : value? (unpacked (-1.0)) = some (-1) := by
  rw [show unpacked (-1.0) = .finite .negative (2 ^ 52) (-52) (by decide) from rfl]
  norm_num [value?, unit]

theorem value?_stretch :
    value? (unpacked (.ofBits 0x4000000000000001)) = some ((2 ^ 52 + 1) * 2 ^ (-51 : ℤ)) := by
  rw [show unpacked (.ofBits 0x4000000000000001) =
    .finite .positive (2 ^ 52 + 1) (-51) (by decide) from rfl]
  norm_num [value?, unit]

/-- Bits behind the point of a number between one and two. -/
theorem value?_ofBits_or {n : UInt64} (h : n.toNat < 2 ^ 52) :
    value? (unpacked (.ofBits (0x3FF0000000000000 ||| n))) =
      some (1 + n.toNat * (2 : ℚ) ^ (-52 : ℤ)) := by
  obtain ⟨b, hb⟩ : ∃ b : BitVec Format.binary64.numBits, b = (0x3FF0000000000000 ||| n).toBitVec :=
    ⟨_, rfl⟩
  have hbits : b.toNat = 2 ^ 52 * 1023 + n.toNat := by
    have hor : b.toNat = 1023 <<< 52 ||| n.toNat := hb ▸ UInt64.toNat_or _ _
    rw [hor, ← Nat.shiftLeft_add_eq_or_of_lt h, Nat.shiftLeft_eq, Nat.mul_comm]
  rw [unpacked_ofBits, ← hb, unpack_eq, toNat_unpackExponent, toNat_unpackMantissa, hbits,
    Nat.mul_add_mod, Nat.mod_eq_of_lt h, Nat.mul_add_div (by decide), Nat.div_eq_of_lt h]
  have hsign : unpackSign b = 0#1 := by
    refine BitVec.eq_of_toNat_eq ?_
    rw [toNat_unpackSign, hbits]
    exact Nat.div_eq_of_lt (by omega)
  rw [hsign, ofFields, if_neg (by decide), if_neg (by decide), value?_signed]
  norm_num [unit, Sign.ofBitVec]
  ring

/-- A number that is drawn is between -1 and 1, whatever its bits are. -/
theorem toUnit_mem (bits : UInt64) :
    ∃ d, value? (unpacked (toUnit bits)) = some d ∧ -1 ≤ d ∧ d ≤ 1 := by
  obtain ⟨n, hdef⟩ : ∃ n, n = bits >>> 12 := ⟨_, rfl⟩
  have hn : n.toNat < 2 ^ 52 := by
    have hlt := bits.toNat_lt
    have hshift : n.toNat = bits.toNat >>> 12 := hdef ▸ UInt64.toNat_shiftRight _ _
    rw [hshift, Nat.shiftRight_eq_div_pow]
    omega
  have hn' : (n.toNat : ℚ) + 1 ≤ 2 ^ 52 := by exact_mod_cast hn
  have hn0 : (0 : ℚ) ≤ n.toNat := Nat.cast_nonneg _
  have hzero : IsDouble 0 := isDouble_of_eq 0 0 (by norm_num)
  have hone : IsDouble 1 := isDouble_of_eq 1 0 (by norm_num)
  have htwo : IsDouble 2 := isDouble_of_eq 2 0 (by norm_num)
  have hbelow : IsDouble (1 - 2 ^ (-52 : ℤ)) := isDouble_of_eq (2 ^ 52 - 1) (-52) (by norm_num)
  obtain ⟨u, hu, hu0, hu1⟩ := (rounds_sub (value?_ofBits_or hn) value?_one).exists_value hzero hbelow
    (by norm_num) (by norm_num; linarith)
  obtain ⟨w, hw, hw0, hw2⟩ := (rounds_mul hu value?_stretch).exists_value hzero htwo
    (by positivity) (by norm_num at hu1 ⊢; nlinarith)
  obtain ⟨d, hd, hd0, hd1⟩ := (rounds_add hw value?_neg_one).exists_value hone.neg hone
    (by linarith) (by linarith)
  rw [toUnit, ← hdef]
  exact ⟨d, hd, hd0, hd1⟩

/-- So is every draw of a generator. -/
theorem draw_mem (g : Generator) : -1.0 ≤ g.draw.1 ∧ g.draw.1 ≤ 1.0 := by
  obtain ⟨d, hd, hd0, hd1⟩ := toUnit_mem _
  exact ⟨le_of_value?_le value?_neg_one hd hd0, le_of_value?_le hd value?_one hd1⟩

end Generator

/-! ## Spread delays -/

namespace Pace

theorem value?_leastMillis : value? (unpacked leastMillis) = some 5 := by
  rw [show unpacked leastMillis = .finite .positive (5 * 2 ^ 50) (-50) (by decide) from rfl]
  norm_num [value?, unit]

theorem value?_thousand : value? (unpacked 1000.0) = some 1000 := by
  rw [show unpacked 1000.0 = .finite .positive (1000 * 2 ^ 43) (-43) (by decide) from rfl]
  norm_num [value?, unit]

theorem value?_bound : value? (unpacked 999.0) = some 999 := by
  rw [show unpacked 999.0 = .finite .positive (999 * 2 ^ 43) (-43) (by decide) from rfl]
  norm_num [value?, unit]

theorem unpacked_erasingShare :
    unpacked erasingShare = .finite .positive 5404319552844595 (-53) (by decide) := rfl

theorem value?_erasingShare :
    value? (unpacked erasingShare) = some (5404319552844595 * 2 ^ (-53 : ℤ)) := by
  rw [unpacked_erasingShare]
  norm_num [value?, unit]

/-- Delays are spread with a share that is positive or infinite. -/
theorem spreads_iff {share : Float} : spreads share ↔
    unpacked share = .infinity .positive ∨ ∃ x, value? (unpacked share) = some x ∧ 0 < x := by
  have hspreads : spreads share ↔ (unpacked share).isNaN = false ∧ ¬ share ≤ 0.0 := by
    simp only [spreads, Bool.and_eq_true, Bool.not_eq_true', decide_eq_false_iff_not]
    exact Iff.rfl
  have hzero : value? (unpacked 0.0) = some 0 := rfl
  rw [hspreads, le_iff_atMost hzero]
  cases hu : unpacked share with
  | notANumber => simp [UnpackedFloat.isNaN, value?]
  | infinity s => cases s <;> simp [UnpackedFloat.isNaN, AtMost, value?]
  | zero s => simp [UnpackedFloat.isNaN, AtMost, value?]
  | finite s m e hm => simp [UnpackedFloat.isNaN, AtMost, value?]

/-- Delays are not spread with a share that is no number, or not positive. -/
theorem spreads_eq_false_iff {share : Float} :
    spreads share = false ↔ unpacked share = .notANumber ∨ AtMost (unpacked share) 0 := by
  rw [← Bool.not_eq_true, spreads_iff]
  cases hu : unpacked share with
  | notANumber => simp [AtMost, value?]
  | infinity s => cases s <;> simp [AtMost, value?]
  | zero s => simp [AtMost, value?]
  | finite s m e hm => simp [AtMost, value?]

/-- The largest share below 999. -/
def mostShare : ℚ :=
  999 - 2 ^ (-43 : ℤ)

theorem le_mostShare {share : Float} {x : ℚ} (hx : value? (unpacked share) = some x) (hlt : x < 999) :
    x ≤ mostShare := by
  have hpred := le_pred_of_lt (n := 999 * 2 ^ 43 - 1) (e := -43) (fits_unpacked share) hx (by decide)
    (by norm_num; exact hlt)
  norm_num [mostShare] at hpred ⊢
  exact hpred

/-- The milliseconds of a spread delay, before they are made five at least. -/
theorem exists_millis {share draw : Float} {s d : ℚ} (hs : value? (unpacked share) = some s)
    (hs0 : 0 < s) (hs1 : s ≤ mostShare) (hd : value? (unpacked draw) = some d) (hd0 : -1 ≤ d)
    (hd1 : d ≤ 1) (base : UInt64) :
    ∃ m, value? (unpacked (base.toFloat + draw * (base.toFloat * share))) = some m ∧
      m ≤ 2 ^ 64 * (1 + mostShare) := by
  -- the bounds are doubles, so that no operation moves them
  have hzero : IsDouble 0 := isDouble_of_eq 0 0 (by norm_num)
  have hbase : IsDouble (2 ^ 64) := isDouble_of_eq 1 64 (by norm_num)
  have hspread : IsDouble (2 ^ 64 * mostShare) :=
    isDouble_of_eq (999 * 2 ^ 43 - 1) 21 (by norm_num [mostShare])
  have hsum : IsDouble (2 ^ 64 * (1 + mostShare)) :=
    isDouble_of_eq (1000 * 2 ^ 43 - 1) 21 (by norm_num [mostShare])
  obtain ⟨b, hb, hb0, hb1⟩ := (rounds_toFloat base).exists_value hzero hbase (Nat.cast_nonneg _)
    (by exact_mod_cast base.toNat_lt.le)
  obtain ⟨p, hp, hp0, hp1⟩ := (rounds_mul hb hs).exists_value hzero hspread (by positivity)
    (mul_le_mul hb1 hs1 hs0.le (by norm_num))
  obtain ⟨e, he, he0, he1⟩ := (rounds_mul hd hp).exists_value hspread.neg hspread
    (by nlinarith) (by nlinarith)
  obtain ⟨m, hm, -, hm1⟩ := (rounds_add hb he).exists_value hsum.neg hsum
    (by linarith) (by linarith)
  exact ⟨m, hm, hm1⟩

/-- What is more than five milliseconds, or five milliseconds. -/
theorem exists_floored {millis : Float} {m : ℚ} (hm : value? (unpacked millis) = some m) :
    ∃ t, value? (unpacked (if leastMillis < millis then millis else leastMillis)) = some t ∧ 0 ≤ t ∧
      (t = m ∨ t = 5) := by
  split_ifs with h
  · obtain hinf | ⟨x, hx, hle⟩ := (le_iff_atMost hm).1 (float_le_of_lt h)
    · cases hinf
    · cases value?_leastMillis.symm.trans hx
      exact ⟨m, hm, by linarith, .inl rfl⟩
  · exact ⟨5, value?_leastMillis, by norm_num, .inr rfl⟩

/-- So many milliseconds are a delay still. -/
theorem isSome_ofSeconds?_floored {millis : Float} {m : ℚ} (hm : value? (unpacked millis) = some m)
    (hle : m ≤ 2 ^ 64 * (1 + mostShare)) :
    (Delay.ofSeconds?
      ((if leastMillis < millis then millis else leastMillis) / 1000.0)).isSome := by
  have hzero : IsDouble 0 := isDouble_of_eq 0 0 (by norm_num)
  have hseconds : IsDouble (2 ^ 64 - 2 ^ 11) := isDouble_of_eq (2 ^ 53 - 1) 11 (by norm_num)
  obtain ⟨t, ht, ht0, hcases⟩ := exists_floored hm
  have ht1 : t ≤ 2 ^ 64 * (1 + mostShare) := by
    obtain rfl | rfl := hcases
    · exact hle
    · norm_num [mostShare]
  obtain ⟨w, hw, hw0, hw1⟩ := (rounds_div ht value?_thousand (by norm_num)).exists_value hzero
    hseconds (by positivity) (by norm_num [mostShare] at ht1 ⊢; linarith)
  exact (Delay.isSome_ofSeconds?_iff _).2 ⟨w, hw, hw0, by linarith⟩

/-- With a share below 999, however long the base delay is, and with any draw, a spread delay is a
delay. -/
theorem isSome_spread? {share draw : Float} (hs : spreads share) (hlt : ¬ 999.0 ≤ share)
    (hdraw : -1.0 ≤ draw) (hdraw' : draw ≤ 1.0) (base : UInt64) :
    (spread? base share draw).isSome := by
  rw [le_iff_atLeast value?_bound] at hlt
  obtain ⟨d, hd, hd0, hd1⟩ := ((le_iff_atLeast Generator.value?_neg_one).1 hdraw).exists_value
    ((le_iff_atMost Generator.value?_one).1 hdraw')
  obtain hinf | ⟨s, hs, hs0⟩ := spreads_iff.1 hs
  · exact absurd (.inl hinf) hlt
  · have hs1 := le_mostShare hs (lt_of_not_ge fun hge => hlt (.inr ⟨s, hs, hge⟩))
    obtain ⟨m, hm, hm1⟩ := exists_millis hs hs0 hs1 hd hd0 hd1 base
    exact isSome_ofSeconds?_floored hm hm1

/-- With a share of 999 or more, the longest base delay is spread too far by the largest draw. -/
theorem spread?_eq_none {share : Float} (h : 999.0 ≤ share) :
    spread? 18446744073709551615 share 1.0 = none := by
  have hbase : value? (unpacked (18446744073709551615 : UInt64).toFloat) = some (2 ^ 64) := by
    rw [show unpacked (18446744073709551615 : UInt64).toFloat =
      .finite .positive (2 ^ 52) 12 (by decide) from rfl]
    norm_num [value?, unit]
  have hspread : IsDouble (2 ^ 64 * 999) := isDouble_of_eq 999 64 (by norm_num)
  have hsum : IsDouble (2 ^ 64 * 1000) := isDouble_of_eq 1000 64 (by norm_num)
  have hseconds : IsDouble (2 ^ 64) := isDouble_of_eq 1 64 (by norm_num)
  have hproduct := atLeast_mul hbase (by norm_num) ((le_iff_atLeast value?_bound).1 h) hspread
    (le_refl _)
  have hdrawn := atLeast_mul Generator.value?_one one_pos hproduct hspread (one_mul _).ge
  have hmillis := atLeast_add hbase hdrawn hsum (by norm_num)
  have hlong := atLeast_div hmillis value?_thousand (by norm_num) hseconds (by norm_num)
  have hleast := lt_of_atLeast value?_leastMillis hmillis (by norm_num)
  rw [← Option.not_isSome_iff_eq_none, spread?]
  simp only [if_pos hleast]
  rw [Delay.isSome_ofSeconds?_iff]
  rintro ⟨x, hx, -, hlt⟩
  obtain hinf | ⟨y, hy, hge⟩ := hlong
  · rw [hinf] at hx
    cases hx
  · cases hx.symm.trans hy
    exact absurd hlt hge.not_gt

/-- The shares with which all delays can be spread, whatever is drawn, are those below 999. -/
theorem forall_isSome_spread?_iff {share : Float} (hs : spreads share) :
    (∀ base draw, -1.0 ≤ draw → draw ≤ 1.0 → (spread? base share draw).isSome) ↔
      ¬ 999.0 ≤ share := by
  refine ⟨fun hall hle => ?_, fun hlt base draw h h' => isSome_spread? hs hlt h h' base⟩
  have hsome := hall 18446744073709551615 1.0
    (le_of_value?_le Generator.value?_neg_one Generator.value?_one (by norm_num))
    (le_of_value?_le Generator.value?_one Generator.value?_one (le_refl 1))
  rw [spread?_eq_none hle] at hsome
  cases hsome

/-- A delay that is not spread is a delay at any rate. -/
theorem isSome_spreadDelay {share : Float} (hlt : ¬ 999.0 ≤ share) (base : UInt64) (g : Generator) :
    (spreadDelay base share g).1.isSome := by
  rw [spreadDelay]
  split_ifs with hs
  · exact isSome_spread? hs hlt (Generator.draw_mem g).1 (Generator.draw_mem g).2 base
  · rfl

/-- The share of erasing is not larger than that of typing. -/
theorem not_le_mul_erasingShare {share : Float} (hlt : ¬ 999.0 ≤ share) :
    ¬ 999.0 ≤ share * erasingShare := by
  rw [le_iff_atLeast value?_bound] at hlt ⊢
  intro hge
  cases hx : value? (unpacked share) with
  | some x =>
    have hx1 := le_mostShare hx (lt_of_not_ge fun h => hlt (.inr ⟨x, hx, h⟩))
    have hmost : IsDouble mostShare :=
      isDouble_of_eq (999 * 2 ^ 43 - 1) (-43) (by norm_num [mostShare])
    have hle : x * (5404319552844595 * 2 ^ (-53 : ℤ)) ≤ mostShare := by
      norm_num [mostShare] at hx1 ⊢
      linarith
    have hbound := hge.le_of_atMost ((rounds_mul hx value?_erasingShare _ hmost).1 hle)
    norm_num [mostShare] at hbound
  | none =>
    rw [unpacked_mul, unpacked_erasingShare] at hge
    cases hu : unpacked share with
    | zero | finite =>
      rw [hu] at hx
      cases hx
    | notANumber =>
      rw [hu] at hge
      obtain hinf | ⟨y, hy, -⟩ := hge
      · cases hinf
      · cases hy
    | infinity s =>
      rw [hu] at hge
      cases s with
      | positive => exact hlt (.inl hu)
      | negative =>
        obtain hinf | ⟨y, hy, -⟩ := hge
        · cases hinf
        · cases hy

/-- What is not spread in typing is not spread in erasing. -/
theorem spreads_mul_erasingShare {share : Float} (h : spreads share = false) :
    spreads (share * erasingShare) = false := by
  rw [spreads_eq_false_iff] at h ⊢
  obtain hnan | hinf | ⟨x, hx, hx0⟩ := h
  · rw [unpacked_mul, unpacked_erasingShare, hnan]
    exact .inl rfl
  · rw [unpacked_mul, unpacked_erasingShare, hinf]
    exact .inr (.inl rfl)
  · have hzero : IsDouble 0 := isDouble_of_eq 0 0 (by norm_num)
    have hprod : x * (5404319552844595 * 2 ^ (-53 : ℤ)) ≤ 0 :=
      mul_nonpos_of_nonpos_of_nonneg hx0 (by positivity)
    exact .inr ((rounds_mul hx value?_erasingShare 0 hzero).1 hprod)

theorem isSome_typingDelay {p : Pace} (hlt : ¬ 999.0 ≤ p.jitter) (g : Generator) :
    (p.typingDelay g).1.isSome :=
  isSome_spreadDelay hlt p.typing g

theorem isSome_erasingDelay {p : Pace} (hlt : ¬ 999.0 ≤ p.jitter) (g : Generator) :
    (p.erasingDelay g).1.isSome :=
  isSome_spreadDelay (not_le_mul_erasingShare hlt) p.erasing g

end Pace

end Typist
