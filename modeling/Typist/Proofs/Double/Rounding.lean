import Mathlib

/-!
# How doubles are rounded

A result that is no double is rounded by shifting its significand: a bit is kept for half a unit, and
one for what is less. All that the bounds on results need of it is that rounding is faithful: it leads
to no other side of a double.

* `Stands` — what an extended significand says of a number, which shifting keeps;
* `Faithful` — a number is on the same side of each double, before and after it was rounded;
* `Canonical` — the significands and exponents that a double can have;
* `exists_rounded` — that rounding is faithful, and gives a significand and an exponent of a double.
-/

namespace Typist.Double

open Float.Model Float.Model.UnpackedFloat

/-! ## Shifting -/

/-- An extended significand is what is left of a number without the places behind its point, and its
bits are clear if these are all zeros. -/
structure Stands (em : ExtendedMantissa) (y : ℚ) : Prop where
  le : em.mantissa ≤ y
  lt : y < em.mantissa + 1
  exact : y = em.mantissa → em.roundBit = false ∧ em.stickyBit = false

@[simp] theorem mantissa_ofMantissaAndAccuracy (m : ℕ) (acc : Accuracy) :
    (ExtendedMantissa.ofMantissaAndAccuracy m acc).mantissa = m := by
  cases acc with
  | exact => rfl
  | inexact place => cases place <;> rfl

/-- A whole number stands for itself. -/
theorem Stands.ofExact (m : ℕ) : Stands (.ofMantissaAndAccuracy m .exact) m where
  le := le_refl _
  lt := lt_add_one _
  exact _ := ⟨rfl, rfl⟩

/-- What stands for a number stands for half of it when it loses its last bit. -/
theorem Stands.shiftRightOne {em : ExtendedMantissa} {y : ℚ} (h : Stands em y) :
    Stands em.shiftRightOne (y / 2) := by
  have hdiv : (em.mantissa : ℚ) = (em.mantissa % 2 : ℕ) + 2 * (em.mantissa / 2 : ℕ) := by
    exact_mod_cast (Nat.mod_add_div em.mantissa 2).symm
  have hmod : ((em.mantissa % 2 : ℕ) : ℚ) ≤ 1 := by
    exact_mod_cast Nat.lt_succ_iff.1 (Nat.mod_lt em.mantissa (by decide))
  have hmod' : (0 : ℚ) ≤ (em.mantissa % 2 : ℕ) := Nat.cast_nonneg _
  have hle := h.le
  have hlt := h.lt
  refine ⟨?_, ?_, fun heq => ?_⟩
  · change ((em.mantissa / 2 : ℕ) : ℚ) ≤ y / 2
    linarith
  · change y / 2 < ((em.mantissa / 2 : ℕ) : ℚ) + 1
    linarith
  · -- nothing behind the point of half the number: the last bit of it was clear, and so were both
    replace heq : y / 2 = ((em.mantissa / 2 : ℕ) : ℚ) := heq
    have heven : ((em.mantissa % 2 : ℕ) : ℚ) = 0 := by linarith
    obtain ⟨hround, hsticky⟩ := h.exact (by linarith)
    refine ⟨?_, ?_⟩
    · change (em.mantissa % 2 != 0) = false
      rw [Nat.cast_eq_zero.1 heven]
      rfl
    · change (em.roundBit || em.stickyBit) = false
      rw [hround, hsticky]
      rfl

/-- And for the part that is left of the number when it loses several bits. -/
theorem Stands.shiftRight {em : ExtendedMantissa} {y : ℚ} (h : Stands em y) (k : ℕ) :
    Stands (em >>> k) (y / 2 ^ k) := by
  change Stands (k.repeat ExtendedMantissa.shiftRightOne em) _
  induction k with
  | zero => simpa [Nat.repeat] using h
  | succ k ih =>
    rw [pow_succ, ← div_div]
    exact ih.shiftRightOne

/-! ## Rounding to a whole number -/

/-- Rounding leads to the significand or to the next one, and without a bit to the significand. -/
theorem roundedMantissa_cases (em : ExtendedMantissa) :
    em.roundedMantissa = em.mantissa ∨
      em.roundedMantissa = em.mantissa + 1 ∧ ¬ (em.roundBit = false ∧ em.stickyBit = false) := by
  obtain ⟨m, round, sticky⟩ := em
  cases round <;> cases sticky <;>
    simp [ExtendedMantissa.roundedMantissa, ExtendedMantissa.accuracy, Accuracy.roundToNearestEven]
  omega

/-- Rounding does not go above a whole number that the number is not above. -/
theorem Stands.roundedMantissa_le {em : ExtendedMantissa} {y : ℚ} (h : Stands em y) {n : ℕ}
    (hn : y ≤ n) : em.roundedMantissa ≤ n := by
  have hle : em.mantissa ≤ n := Nat.cast_le.1 (h.le.trans hn)
  obtain heq | ⟨heq, hbits⟩ := roundedMantissa_cases em
  · rwa [heq]
  · have hlt : (em.mantissa : ℚ) < y := lt_of_le_of_ne h.le fun hy => hbits (h.exact hy.symm)
    rw [heq]
    exact Nat.succ_le_of_lt (Nat.cast_lt.1 (hlt.trans_le hn))

/-- Rounding does not go below a whole number that the number is not below. -/
theorem Stands.le_roundedMantissa {em : ExtendedMantissa} {y : ℚ} (h : Stands em y) {n : ℕ}
    (hn : n ≤ y) : n ≤ em.roundedMantissa := by
  have hlt : (n : ℚ) < (em.mantissa + 1 : ℕ) := by
    rw [Nat.cast_succ]
    exact hn.trans_lt h.lt
  have hle : n ≤ em.mantissa := Nat.lt_succ_iff.1 (Nat.cast_lt.1 hlt)
  obtain heq | ⟨heq, -⟩ := roundedMantissa_cases em <;> omega

/-! ## Rounding to a double -/

/-- A number is on the same side of each double before and after it was rounded. There is no bound on
the exponents here: a double that is too large counts as well. -/
def Faithful (x v : ℚ) : Prop :=
  ∀ (n : ℕ) (e : ℤ), n < 2 ^ 53 → -1074 ≤ e →
    (x ≤ n * 2 ^ e → v ≤ n * 2 ^ e) ∧ (n * 2 ^ e ≤ x → n * 2 ^ e ≤ v)

/-- A significand and an exponent as a double has them, up to the bound on exponents. -/
structure Canonical (m : ℕ) (e : ℤ) : Prop where
  lt : m < 2 ^ 53
  le : -1074 ≤ e
  full : 2 ^ 52 ≤ m ∨ e = -1074

/-- A number of units is a number of smaller units. -/
theorem mul_zpow_add (n : ℕ) (t : ℤ) (k : ℕ) : (n : ℚ) * 2 ^ (t + k) = (n * 2 ^ k : ℕ) * 2 ^ t := by
  rw [zpow_add₀ two_ne_zero, zpow_natCast]
  push_cast
  ring

/-- Where a number has 53 places, it is larger than all doubles of smaller exponents. -/
theorem mul_zpow_lt {m : ℕ} {z : ℚ} {e f : ℤ} (hm : m < 2 ^ 53) (hz : 2 ^ 52 ≤ z) (h : e < f) :
    m * 2 ^ e < z * 2 ^ f := by
  have hm' : (m : ℚ) < 2 ^ 53 := by exact_mod_cast hm
  have hnext : (2 : ℚ) ^ (e + 1) ≤ 2 ^ f := zpow_le_zpow_right₀ one_le_two (by omega)
  rw [zpow_add_one₀ two_ne_zero] at hnext
  calc (m : ℚ) * 2 ^ e < 2 ^ 53 * 2 ^ e := mul_lt_mul_of_pos_right hm' (by positivity)
    _ = 2 ^ 52 * (2 ^ e * 2) := by ring
    _ ≤ z * 2 ^ f := mul_le_mul hz hnext (by positivity) (by linarith)

/-- A magnitude with a sign. -/
def signed (s : Sign) (m : ℕ) (e : ℤ) : UnpackedFloat :=
  if h : m = 0 then .zero s else .finite s m e (Nat.pos_of_ne_zero h)

/-- The exponent is such that 53 bits are left, unless that is below the least one. -/
theorem targetExponent_eq (m : ℕ) (e : ℤ) :
    Format.binary64.targetExponent (totalExponent m e) = max (m.log2 + e - 52) (-1074) := by
  simp only [Format.targetExponent, totalExponent, Format.mantissaBits, Format.minExponent]
  norm_num
  omega

/-- What fits a double is not shifted. -/
theorem shiftToTargetExponent_of_lt {m : ℕ} {e : ℤ} (hm : m < 2 ^ 53) (he : -1074 ≤ e) :
    shiftToTargetExponent .binary64 m e .exact = (⟨m, false, false⟩, e) := by
  have hlog : m.log2 ≤ 52 := by
    by_cases h : m = 0
    · simp [h]
    · exact Nat.lt_succ_iff.1 ((Nat.log2_lt h).2 hm)
  have hshift : (Format.binary64.targetExponent (totalExponent m e) - e).toNat = 0 := by
    rw [targetExponent_eq]
    omega
  simp only [shiftToTargetExponent, shiftToExponent, hshift, ExtendedMantissa.ofMantissaAndAccuracy,
    Nat.cast_zero, add_zero]
  rfl

/-- The first significand that does not fit is halved. -/
theorem shiftToTargetExponent_two_pow {e : ℤ} (he : -1074 ≤ e) :
    shiftToTargetExponent .binary64 (2 ^ 53) e .exact = (⟨2 ^ 52, false, false⟩, e + 1) := by
  have hshift : (Format.binary64.targetExponent (totalExponent (2 ^ 53) e) - e).toNat = 1 := by
    rw [targetExponent_eq, Nat.log2_two_pow]
    omega
  simp only [shiftToTargetExponent, shiftToExponent, hshift, ExtendedMantissa.ofMantissaAndAccuracy,
    Nat.cast_one]
  rfl

/-- Shifted as far as a double asks for, a significand has 53 places, or the exponent is the least. -/
theorem Stands.shifted {m : ℕ} {e : ℤ} {acc : Accuracy} {y : ℚ}
    (h : Stands (.ofMantissaAndAccuracy m acc) y) (hfull : 52 ≤ m.log2 ∨ e ≤ -1074) :
    ∃ em t z, shiftToTargetExponent .binary64 m e acc = (em, t) ∧ Stands em z ∧ z * 2 ^ t = y * 2 ^ e ∧
      -1074 ≤ t ∧ z ≤ 2 ^ 53 ∧ (2 ^ 52 ≤ z ∨ t = -1074) := by
  have hle := h.le
  have hlt := h.lt
  rw [mantissa_ofMantissaAndAccuracy] at hle hlt
  obtain ⟨k, hk⟩ : ∃ k, k = (Format.binary64.targetExponent (totalExponent m e) - e).toNat := ⟨_, rfl⟩
  have hpow : (0 : ℚ) < 2 ^ k := by positivity
  refine ⟨ExtendedMantissa.ofMantissaAndAccuracy m acc >>> k, e + k, y / 2 ^ k, by rw [hk]; rfl,
    h.shiftRight k, ?_, ?_, ?_, ?_⟩
  · rw [zpow_add₀ two_ne_zero, zpow_natCast, mul_comm (2 ^ e : ℚ), ← mul_assoc,
      div_mul_cancel₀ _ hpow.ne']
  · rw [targetExponent_eq] at hk
    omega
  · have hlog : m.log2 + 1 ≤ 53 + k := by
      rw [targetExponent_eq] at hk
      omega
    have hnext : m + 1 ≤ 2 ^ (53 + k) :=
      Nat.succ_le_of_lt (Nat.lt_log2_self.trans_le (Nat.pow_le_pow_right (by decide) hlog))
    rw [div_le_iff₀ hpow, ← pow_add]
    exact hlt.le.trans (by exact_mod_cast hnext)
  · rw [targetExponent_eq] at hk
    obtain hlog | hleast : m.log2 = 52 + k ∧ m ≠ 0 ∨ e + k = -1074 := by
      by_cases hzero : m = 0
      · subst hzero
        simp only [Nat.log2_zero] at hk hfull
        omega
      · omega
    · refine .inl ?_
      rw [le_div_iff₀ hpow, ← pow_add, ← hlog.1]
      exact le_trans (by exact_mod_cast Nat.log2_self_le hlog.2) hle
    · exact .inr hleast

/-- With 53 places, or the least exponent, rounding to a whole number is rounding to a double. -/
theorem Stands.faithful {em : ExtendedMantissa} {z : ℚ} {t : ℤ} (h : Stands em z)
    (hfull : 2 ^ 52 ≤ z ∨ t = -1074) : Faithful (z * 2 ^ t) (em.roundedMantissa * 2 ^ t) := by
  intro n e hn he
  have hpow : (0 : ℚ) < 2 ^ t := by positivity
  by_cases hte : t ≤ e
  · -- the double is a whole number of units
    obtain ⟨k, rfl⟩ := Int.le.dest hte
    rw [mul_zpow_add, mul_le_mul_iff_left₀ hpow, mul_le_mul_iff_left₀ hpow, mul_le_mul_iff_left₀ hpow,
      mul_le_mul_iff_left₀ hpow]
    exact ⟨fun hz => Nat.cast_le.2 (h.roundedMantissa_le hz),
      fun hz => Nat.cast_le.2 (h.le_roundedMantissa hz)⟩
  · -- the double is smaller than all numbers of 53 places and this exponent
    have hz : 2 ^ 52 ≤ z := hfull.resolve_right (by omega)
    have hr : 2 ^ 52 ≤ em.roundedMantissa := h.le_roundedMantissa (by exact_mod_cast hz)
    exact ⟨fun hle => absurd hle (not_le.2 (mul_zpow_lt hn hz (not_le.1 hte))),
      fun _ => (mul_zpow_lt hn (by exact_mod_cast hr) (not_le.1 hte)).le⟩

/-- Rounding is faithful, and leads to what a double can have. -/
theorem exists_rounded {m : ℕ} {e : ℤ} {acc : Accuracy} {y : ℚ} (s : Sign)
    (h : Stands (.ofMantissaAndAccuracy m acc) y) (hfull : 52 ≤ m.log2 ∨ e ≤ -1074) :
    ∃ r t, Canonical r t ∧ roundWithAccuracy .binary64 s m e acc = signed s r t ∧
      Faithful (y * 2 ^ e) (r * 2 ^ t) := by
  obtain ⟨em, t, z, hem, hz, hval, ht, hle, hfull'⟩ := h.shifted hfull
  have hfaithful := hz.faithful hfull'
  rw [hval] at hfaithful
  have hr : em.roundedMantissa ≤ 2 ^ 53 := hz.roundedMantissa_le (by exact_mod_cast hle)
  obtain hlt | heq := hr.lt_or_eq
  · refine ⟨em.roundedMantissa, t, ⟨hlt, ht, hfull'.imp_left fun h => ?_⟩, ?_, hfaithful⟩
    · exact hz.le_roundedMantissa (by exact_mod_cast h)
    · simp only [roundWithAccuracy, hem, shiftToTargetExponent_of_lt hlt ht]
      rfl
  · -- the rounded significand has one place too many, and the last ones are zeros
    refine ⟨2 ^ 52, t + 1, ⟨by decide, by omega, .inl (le_refl _)⟩, ?_, ?_⟩
    · simp only [roundWithAccuracy, hem, heq, shiftToTargetExponent_two_pow ht]
      rfl
    · rw [heq] at hfaithful
      have hsame : ((2 ^ 53 : ℕ) : ℚ) * 2 ^ t = ((2 ^ 52 : ℕ) : ℚ) * 2 ^ (t + 1) := by
        rw [zpow_add₀ two_ne_zero]
        push_cast
        ring
      rwa [← hsame]

theorem log2_shiftLeft {m : ℕ} (hm : m ≠ 0) (k : ℕ) : (m <<< k).log2 = m.log2 + k := by
  induction k with
  | zero => rfl
  | succ k ih =>
    have hne : m <<< k ≠ 0 := (Nat.shiftLeft_pos_iff.2 (Nat.pos_of_ne_zero hm)).ne'
    rw [Nat.shiftLeft_succ, Nat.log2_two_mul hne, ih, Nat.add_assoc]

/-- A magnitude that is no double yet is rounded faithfully. -/
theorem exists_round {m : ℕ} (s : Sign) (e : ℤ) (hm : m ≠ 0) :
    ∃ r t, Canonical r t ∧ UnpackedFloat.round .binary64 s m e = signed s r t ∧
      Faithful (m * 2 ^ e) (r * 2 ^ t) := by
  obtain ⟨k, hk⟩ : ∃ k, k = (e - Format.binary64.targetExponent (totalExponent m e)).toNat := ⟨_, rfl⟩
  have hlog := log2_shiftLeft hm k
  have hval : ((m <<< k : ℕ) : ℚ) * 2 ^ (e - k) = m * 2 ^ e := by
    rw [Nat.shiftLeft_eq, zpow_sub₀ two_ne_zero, zpow_natCast]
    push_cast
    field_simp
  have hfull : 52 ≤ (m <<< k).log2 ∨ e - k ≤ -1074 := by
    rw [targetExponent_eq] at hk
    omega
  obtain ⟨r, t, hcanon, heq, hfaithful⟩ := exists_rounded s (Stands.ofExact (m <<< k)) hfull
  refine ⟨r, t, hcanon, ?_, hval ▸ hfaithful⟩
  rw [← heq, hk]
  rfl

/-- A quotient of two significands, and what is left over. -/
theorem Stands.ofDiv (m : ℕ) {n : ℕ} (hn : n ≠ 0) :
    Stands (.ofMantissaAndAccuracy (m / n) (accuracyOfFraction (m % n) n)) (m / n) := by
  have hpos : (0 : ℚ) < n := by exact_mod_cast Nat.pos_of_ne_zero hn
  have hdiv : (m : ℚ) = (m % n : ℕ) + n * (m / n : ℕ) := by exact_mod_cast (Nat.mod_add_div m n).symm
  have hmod : ((m % n : ℕ) : ℚ) < n := by exact_mod_cast Nat.mod_lt m (Nat.pos_of_ne_zero hn)
  have hmod' : (0 : ℚ) ≤ (m % n : ℕ) := Nat.cast_nonneg _
  refine ⟨?_, ?_, fun heq => ?_⟩
  · rw [mantissa_ofMantissaAndAccuracy, le_div_iff₀ hpos]
    linarith
  · rw [mantissa_ofMantissaAndAccuracy, div_lt_iff₀ hpos]
    linarith
  · rw [mantissa_ofMantissaAndAccuracy, div_eq_iff hpos.ne'] at heq
    have hzero : m % n = 0 := by
      have : ((m % n : ℕ) : ℚ) = 0 := by linarith
      exact_mod_cast this
    rw [accuracyOfFraction, if_pos hzero]
    exact ⟨rfl, rfl⟩

/-- A quotient is shifted so far that it has 53 places, or the exponent is the least. -/
theorem le_log2_div {m n k : ℕ} (hn : n ≠ 0) (h : n.log2 + 53 ≤ m.log2 + k) (hm : m ≠ 0) :
    52 ≤ ((m <<< k) / n).log2 := by
  have hle : 2 ^ 52 ≤ (m <<< k) / n := by
    rw [Nat.le_div_iff_mul_le (Nat.pos_of_ne_zero hn), Nat.shiftLeft_eq]
    calc 2 ^ 52 * n ≤ 2 ^ 52 * 2 ^ (n.log2 + 1) := Nat.mul_le_mul_left _ Nat.lt_log2_self.le
      _ = 2 ^ (n.log2 + 53) := by rw [← Nat.pow_add, Nat.add_comm, Nat.add_assoc]
      _ ≤ 2 ^ (m.log2 + k) := Nat.pow_le_pow_right (by decide) h
      _ = 2 ^ m.log2 * 2 ^ k := Nat.pow_add ..
      _ ≤ m * 2 ^ k := Nat.mul_le_mul_right _ (Nat.log2_self_le hm)
  exact (Nat.le_log2 (Nat.ne_of_gt (Nat.lt_of_lt_of_le (by decide) hle))).2 hle

/-- A quotient of two magnitudes is rounded faithfully. -/
theorem exists_div {m n : ℕ} (s s' : Sign) (e f : ℤ) (hm : 0 < m) (hn : 0 < n) :
    ∃ r t, Canonical r t ∧
      UnpackedFloat.div .binary64 (.finite s m e hm) (.finite s' n f hn) = signed (s / s') r t ∧
      Faithful (m * 2 ^ e / (n * 2 ^ f)) (r * 2 ^ t) := by
  obtain ⟨g, hg⟩ : ∃ g, g = min (e - f)
      (Format.binary64.targetExponent (totalExponent m e - totalExponent n f)) := ⟨_, rfl⟩
  obtain ⟨k, hk⟩ : ∃ k, k = (e - f - g).toNat := ⟨_, rfl⟩
  have hcore : divCore .binary64 m e n f =
      ((m <<< k) / n, g, accuracyOfFraction ((m <<< k) % n) n) := by
    rw [hk, hg]
    rfl
  have hshift : g = e - f - k := by omega
  have hval : ((m <<< k : ℕ) / n : ℚ) * 2 ^ g = m * 2 ^ e / (n * 2 ^ f) := by
    rw [hshift, Nat.shiftLeft_eq, zpow_sub₀ two_ne_zero, zpow_sub₀ two_ne_zero, zpow_natCast]
    push_cast
    field_simp
  have hfull : 52 ≤ ((m <<< k) / n).log2 ∨ g ≤ -1074 := by
    simp only [Format.targetExponent, totalExponent, Format.mantissaBits, Format.minExponent] at hg
    norm_num at hg
    by_cases hleast : g ≤ -1074
    · exact .inr hleast
    · exact .inl (le_log2_div hn.ne' (by omega) hm.ne')
  obtain ⟨r, t, hcanon, heq, hfaithful⟩ :=
    exists_rounded (s / s') (Stands.ofDiv (m <<< k) hn.ne') hfull
  refine ⟨r, t, hcanon, ?_, hval ▸ hfaithful⟩
  rw [UnpackedFloat.div, hcore]
  exact heq

end Typist.Double
