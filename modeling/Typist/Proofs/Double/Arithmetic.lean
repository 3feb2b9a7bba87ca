import Typist.Proofs.Double.Packing

/-!
# The arithmetic of doubles

A double stands for a number, for an infinity or for nothing. An operation on two numbers leads to the
exact result, rounded; all that is said about that here is on which side of each double it is, and an
infinite result counts as one that is on the right side. A chain of operations is followed by bounds
that are doubles themselves: from one operation to the next they do not move.

* `value?`, `AtMost`, `AtLeast` — the number that a double is, and bounds on it;
* `Rounds` — a double is what a number was rounded to;
* `rounds_mul`, `rounds_div`, `rounds_add`, `rounds_sub` — the operations round exact results;
* `le_iff_atLeast`, `le_iff_atMost`, `lt_of_atLeast` — comparing is comparing numbers.
-/

namespace Typist.Double

open Float.Model Float.Model.UnpackedFloat

/-! ## Values -/

/-- The factor that a sign is. -/
def unit : Sign → ℚ
  | .negative => -1
  | .positive => 1

theorem unit_mul (s t : Sign) : unit (s * t) = unit s * unit t := by
  cases s <;> cases t <;> simp [unit]

theorem unit_div (s t : Sign) : unit (s / t) = unit s / unit t := by
  cases s <;> cases t <;> simp [unit] <;> rfl

theorem unit_neg (s : Sign) : unit (-s) = -unit s := by
  cases s
  · exact (neg_neg 1).symm
  · rfl

theorem cast_apply (s : Sign) (n : ℤ) : (s.apply n : ℚ) = unit s * n := by
  cases s <;> simp [Sign.apply, unit]

/-- The number that a double is, if it is one. -/
def value? : UnpackedFloat → Option ℚ
  | .zero _ => some 0
  | .finite s m e _ => some (unit s * (m * 2 ^ e))
  | _ => none

/-- What a signed magnitude is worth. -/
theorem value?_signed (s : Sign) (m : ℕ) (e : ℤ) :
    value? (signed s m e) = some (unit s * (m * 2 ^ e)) := by
  by_cases h : m = 0
  · simp [signed, h, value?]
  · rw [signed, dif_neg h, value?]

/-- A number is a zero or has a magnitude. -/
theorem value?_cases {u : UnpackedFloat} {x : ℚ} (h : value? u = some x) :
    (∃ s, u = .zero s ∧ x = 0) ∨ ∃ s m e hm, u = .finite s m e hm ∧ x = unit s * (m * 2 ^ e) := by
  cases u with
  | notANumber | infinity => cases h
  | zero s => exact .inl ⟨s, rfl, (Option.some.inj h).symm⟩
  | finite s m e hm => exact .inr ⟨s, m, e, hm, rfl, (Option.some.inj h).symm⟩

/-- A double is at most so large. -/
def AtMost (u : UnpackedFloat) (c : ℚ) : Prop :=
  u = .infinity .negative ∨ ∃ x, value? u = some x ∧ x ≤ c

/-- A double is at least so large. -/
def AtLeast (u : UnpackedFloat) (c : ℚ) : Prop :=
  u = .infinity .positive ∨ ∃ x, value? u = some x ∧ c ≤ x

/-- A number that some double is. -/
def IsDouble (c : ℚ) : Prop :=
  ∃ (s : Sign) (m : ℕ) (e : ℤ), m < 2 ^ 53 ∧ -1074 ≤ e ∧ e ≤ 971 ∧ c = unit s * (m * 2 ^ e)

/-- A double is what a number was rounded to: it is on no other side of any double. -/
def Rounds (x : ℚ) (u : UnpackedFloat) : Prop :=
  ∀ c, IsDouble c → (x ≤ c → AtMost u c) ∧ (c ≤ x → AtLeast u c)

/-- A whole number of at most 53 bits, moved by an exponent in range, is a double. -/
theorem isDouble_of_eq {c : ℚ} (n : ℕ) (e : ℤ) (h : c = n * 2 ^ e)
    (hrange : n < 2 ^ 53 ∧ -1074 ≤ e ∧ e ≤ 971 := by decide) : IsDouble c :=
  ⟨.positive, n, e, hrange.1, hrange.2.1, hrange.2.2, h.trans (one_mul _).symm⟩

theorem IsDouble.neg {c : ℚ} (h : IsDouble c) : IsDouble (-c) := by
  obtain ⟨s, m, e, hm, he, he', rfl⟩ := h
  refine ⟨-s, m, e, hm, he, he', ?_⟩
  rw [unit_neg, neg_mul]

/-- What a double is at least is not above what it is at most. -/
theorem AtLeast.le_of_atMost {u : UnpackedFloat} {c d : ℚ} (hc : AtLeast u c) (hd : AtMost u d) :
    c ≤ d := by
  obtain rfl | ⟨x, hx, hle⟩ := hc
  · obtain hd | ⟨y, hy, -⟩ := hd
    · cases hd
    · cases hy
  · obtain rfl | ⟨y, hy, hle'⟩ := hd
    · cases hx
    · cases hx.symm.trans hy
      exact hle.trans hle'

/-- What has bounds on both sides is a number. -/
theorem AtLeast.exists_value {u : UnpackedFloat} {lo hi : ℚ} (hlo : AtLeast u lo)
    (hhi : AtMost u hi) : ∃ v, value? u = some v ∧ lo ≤ v ∧ v ≤ hi := by
  obtain rfl | ⟨v, hv, hle⟩ := hhi
  · obtain hinf | ⟨v, hv, -⟩ := hlo
    · cases hinf
    · cases hv
  · obtain rfl | ⟨w, hw, hge⟩ := hlo
    · cases hv
    · cases hv.symm.trans hw
      exact ⟨v, hv, hge, hle⟩

/-- Bounds that are doubles stay bounds when a number between them is rounded. -/
theorem Rounds.exists_value {u : UnpackedFloat} {x lo hi : ℚ} (h : Rounds x u) (hlo : IsDouble lo)
    (hhi : IsDouble hi) (hx : lo ≤ x) (hx' : x ≤ hi) : ∃ v, value? u = some v ∧ lo ≤ v ∧ v ≤ hi :=
  ((h lo hlo).2 hx).exists_value ((h hi hhi).1 hx')

/-- Nothing is between a significand of 53 places and the one before it. -/
theorem le_pred_of_lt {u : UnpackedFloat} {x : ℚ} (hu : Fits u) (hx : value? u = some x) {n : ℕ}
    {e : ℤ} (hn : 2 ^ 52 ≤ n) (h : x < (n + 1 : ℕ) * 2 ^ e) : x ≤ n * 2 ^ e := by
  have hnonneg : (0 : ℚ) ≤ n * 2 ^ e := by positivity
  obtain ⟨s, rfl, rfl⟩ | ⟨s, m, f, hm, rfl, rfl⟩ := value?_cases hx
  · exact hnonneg
  · have hpos : (0 : ℚ) < m * 2 ^ f := by positivity
    cases s with
    | negative =>
      rw [unit, neg_one_mul]
      linarith
    | positive =>
      rw [unit, one_mul] at h ⊢
      have hpow : (0 : ℚ) < 2 ^ e := by positivity
      by_cases hle : e ≤ f
      · -- a whole number of units
        obtain ⟨k, rfl⟩ := Int.le.dest hle
        rw [mul_zpow_add] at h ⊢
        have hlt := Nat.cast_lt.1 (lt_of_mul_lt_mul_right h hpow.le)
        exact mul_le_mul_of_nonneg_right (Nat.cast_le.2 (Nat.le_of_lt_succ hlt)) hpow.le
      · -- so small that the significand does not matter
        exact (mul_zpow_lt hu.1.lt (by exact_mod_cast hn) (not_le.1 hle)).le

/-- What is a double already is rounded to itself. -/
theorem rounds_of_value? {u : UnpackedFloat} {x : ℚ} (h : value? u = some x) : Rounds x u :=
  fun _ _ => ⟨fun hle => .inr ⟨x, h, hle⟩, fun hle => .inr ⟨x, h, hle⟩⟩

/-- Faithful rounding of a magnitude is faithful for both signs. -/
theorem Faithful.unit_mul {x v c : ℚ} (h : Faithful x v) (s : Sign) (hx : 0 ≤ x) (hv : 0 ≤ v)
    (hc : IsDouble c) : (unit s * x ≤ c → unit s * v ≤ c) ∧ (c ≤ unit s * x → c ≤ unit s * v) := by
  obtain ⟨t, m, e, hm, he, -, rfl⟩ := hc
  have hpow : (0 : ℚ) ≤ m * 2 ^ e := by positivity
  obtain ⟨hle, hge⟩ := h m e hm he
  cases s <;> cases t <;> simp only [unit, one_mul, neg_one_mul, neg_le_neg_iff]
  · exact ⟨hge, hle⟩
  · exact ⟨fun _ => by linarith, fun h => by linarith [hle (by linarith)]⟩
  · exact ⟨fun h => by linarith [hle (by linarith)], fun _ => by linarith⟩
  · exact ⟨hle, hge⟩

/-- Doubles are smaller than what is too large for one. -/
theorem IsDouble.abs_lt {c : ℚ} (hc : IsDouble c) {r : ℕ} {t : ℤ} (hr : 2 ^ 52 ≤ r) (ht : 971 < t) :
    |c| < r * 2 ^ t := by
  obtain ⟨s, m, e, hm, -, he, rfl⟩ := hc
  have habs : |unit s * (m * 2 ^ e)| = (m * 2 ^ e : ℚ) := by
    have hnonneg : (0 : ℚ) ≤ m * 2 ^ e := by positivity
    cases s <;> simp [unit, abs_of_nonneg hnonneg]
  rw [habs]
  exact mul_zpow_lt hm (by exact_mod_cast hr) (by omega)

/-- A canonical magnitude that rounds a number faithfully does so with a sign, too. -/
theorem rounds_signed {s : Sign} {r : ℕ} {t : ℤ} {x : ℚ} (hcanon : Canonical r t) (hx : 0 ≤ x)
    (h : Faithful x (r * 2 ^ t)) : Rounds (unit s * x) (repacked (signed s r t)) := by
  have hv : (0 : ℚ) ≤ r * 2 ^ t := by positivity
  intro c hc
  obtain ⟨hle, hge⟩ := h.unit_mul s hx hv hc
  by_cases hmax : t ≤ 971
  · have hfits : Fits (signed s r t) := by
      rw [signed]
      split_ifs
      · trivial
      · exact ⟨hcanon, hmax⟩
    rw [repacked_of_fits hfits]
    exact ⟨fun h => .inr ⟨_, value?_signed s r t, hle h⟩,
      fun h => .inr ⟨_, value?_signed s r t, hge h⟩⟩
  · -- too large: on the side of the sign there is no double that bounds it
    have hr : 2 ^ 52 ≤ r := hcanon.full.resolve_right (by omega)
    have hlt := hc.abs_lt hr (not_le.1 hmax)
    rw [signed, dif_neg (by omega), repacked_of_lt _ (not_le.1 hmax)]
    cases s with
    | positive =>
      refine ⟨fun h => absurd (hle h) ?_, fun _ => .inl rfl⟩
      rw [unit, one_mul, not_le]
      exact (le_abs_self c).trans_lt hlt
    | negative =>
      refine ⟨fun _ => .inl rfl, fun h => absurd (hge h) ?_⟩
      rw [unit, neg_one_mul, not_le]
      exact (neg_lt_neg hlt).trans_le (neg_abs_le c)

/-! ## Operations -/

/-- Zero is rounded to zero, of either sign. -/
theorem rounds_zero (s : Sign) : Rounds 0 (repacked (.zero s)) :=
  rounds_of_value? (congrArg value? (repacked_of_fits (u := .zero s) trivial))

/-- A product has 53 places, or its exponent is small enough. -/
theorem Canonical.le_log2_mul {m n : ℕ} {e f : ℤ} (hm : Canonical m e) (hn : Canonical n f)
    (hm' : 0 < m) (hn' : 0 < n) : 52 ≤ (m * n).log2 ∨ e + f ≤ -1074 := by
  rw [Nat.le_log2 (Nat.mul_pos hm' hn').ne']
  obtain hfull | hleast := hm.full
  · exact .inl (hfull.trans (Nat.le_mul_of_pos_right m hn'))
  · obtain hfull' | hleast' := hn.full
    · exact .inl (hfull'.trans (Nat.le_mul_of_pos_left n hm'))
    · exact .inr (by omega)

/-- Bringing a whole number of whatever size to 53 bits rounds it. -/
theorem rounds_normalize (n e : ℤ) (s : Sign) :
    Rounds (n * 2 ^ e) (repacked (UnpackedFloat.normalize .binary64 n e s)) := by
  have hround (s : Sign) {m : ℕ} (hm : m ≠ 0) (hn : (n : ℚ) = unit s * m) :
      Rounds (n * 2 ^ e) (repacked (UnpackedFloat.round .binary64 s m e)) := by
    obtain ⟨r, t, hcanon, heq, hfaithful⟩ := exists_round s e hm
    rw [hn, mul_assoc, heq]
    exact rounds_signed hcanon (by positivity) hfaithful
  rw [UnpackedFloat.normalize]
  obtain hneg | rfl | hpos := lt_trichotomy n 0
  · rw [Int.compare_eq_lt.2 hneg]
    obtain ⟨m, rfl⟩ := Int.exists_eq_neg_ofNat hneg.le
    refine hround .negative (by omega) ?_
    rw [unit, neg_neg, Int.toNat_natCast, Int.cast_neg, Int.cast_natCast, neg_one_mul]
  · rw [Int.cast_zero, zero_mul]
    exact rounds_zero s
  · rw [Int.compare_eq_gt.2 hpos]
    obtain ⟨m, rfl⟩ := Int.eq_ofNat_of_zero_le hpos.le
    refine hround .positive (by omega) ?_
    rw [unit, Int.toNat_natCast, Int.cast_natCast, one_mul]

/-- Bringing a magnitude to a lower exponent does not change it. -/
theorem decreaseExponent_value (m : ℕ) {e t : ℤ} (h : t ≤ e) :
    ((decreaseExponent m e t).1 : ℚ) * 2 ^ t = m * 2 ^ e := by
  obtain ⟨k, rfl⟩ := Int.le.dest h
  have hshift : (t + k - t).toNat = k := by omega
  simp only [decreaseExponent, hshift, Nat.shiftLeft_eq]
  exact (mul_zpow_add m t k).symm

section

variable {a b : UnpackedFloat} {x y : ℚ}

/-- A product is rounded once. -/
theorem rounds_repacked_mul (ha : Fits a) (hb : Fits b) (hx : value? a = some x)
    (hy : value? b = some y) : Rounds (x * y) (repacked (UnpackedFloat.mul .binary64 a b)) := by
  obtain ⟨s, rfl, rfl⟩ | ⟨s, m, e, hm, rfl, rfl⟩ := value?_cases hx
  · rw [zero_mul]
    obtain ⟨s', rfl, -⟩ | ⟨s', n, f, hn, rfl, -⟩ := value?_cases hy <;> exact rounds_zero _
  · obtain ⟨s', rfl, rfl⟩ | ⟨s', n, f, hn, rfl, rfl⟩ := value?_cases hy
    · rw [mul_zero]
      exact rounds_zero _
    · obtain ⟨r, t, hcanon, heq, hfaithful⟩ :=
        exists_rounded (s * s') (Stands.ofExact (m * n)) (ha.1.le_log2_mul hb.1 hm hn)
      have hval : unit s * (m * 2 ^ e) * (unit s' * (n * 2 ^ f)) =
          unit (s * s') * ((m * n : ℕ) * 2 ^ (e + f)) := by
        rw [unit_mul, zpow_add₀ two_ne_zero]
        push_cast
        ring
      rw [hval, UnpackedFloat.mul, heq]
      exact rounds_signed hcanon (by positivity) hfaithful

/-- A quotient is rounded once. -/
theorem rounds_repacked_div (hx : value? a = some x) (hy : value? b = some y) (hy' : y ≠ 0) :
    Rounds (x / y) (repacked (UnpackedFloat.div .binary64 a b)) := by
  obtain ⟨s', -, rfl⟩ | ⟨s', n, f, hn, rfl, rfl⟩ := value?_cases hy
  · exact absurd rfl hy'
  · obtain ⟨s, rfl, rfl⟩ | ⟨s, m, e, hm, rfl, rfl⟩ := value?_cases hx
    · rw [zero_div]
      exact rounds_zero _
    · obtain ⟨r, t, hcanon, heq, hfaithful⟩ := exists_div s s' e f hm hn
      have hval : unit s * (m * 2 ^ e) / (unit s' * (n * 2 ^ f)) =
          unit (s / s') * (m * 2 ^ e / (n * 2 ^ f)) := by
        rw [unit_div, mul_div_mul_comm]
      rw [hval, heq]
      exact rounds_signed hcanon (by positivity) hfaithful

/-- A sum is rounded once. -/
theorem rounds_repacked_add (ha : Fits a) (hb : Fits b) (hx : value? a = some x)
    (hy : value? b = some y) : Rounds (x + y) (repacked (UnpackedFloat.add .binary64 a b)) := by
  obtain ⟨s, rfl, rfl⟩ | ⟨s, m, e, hm, rfl, rfl⟩ := value?_cases hx
  · rw [zero_add]
    obtain ⟨s', rfl, rfl⟩ | ⟨s', n, f, hn, rfl, rfl⟩ := value?_cases hy
    · rw [UnpackedFloat.add]
      split_ifs <;> exact rounds_zero _
    · exact rounds_of_value? (congrArg value? (repacked_of_fits hb))
  · obtain ⟨s', rfl, rfl⟩ | ⟨s', n, f, hn, rfl, rfl⟩ := value?_cases hy
    · rw [add_zero]
      exact rounds_of_value? (congrArg value? (repacked_of_fits ha))
    · have hsum := rounds_normalize (s.apply (decreaseExponent m e (min e f)).1 +
        s'.apply (decreaseExponent n f (min e f)).1) (min e f) .positive
      rw [Int.cast_add, cast_apply, cast_apply, add_mul, mul_assoc, mul_assoc, Int.cast_natCast,
        Int.cast_natCast, decreaseExponent_value m (min_le_left _ _),
        decreaseExponent_value n (min_le_right _ _)] at hsum
      exact hsum

theorem apply_neg (s : Sign) (n : ℤ) : (-s).apply n = -s.apply n := by
  cases s
  · exact (Int.neg_neg n).symm
  · rfl

/-- Taking away is adding the negative. -/
theorem sub_eq_add (a b : UnpackedFloat) :
    UnpackedFloat.sub .binary64 a b = UnpackedFloat.add .binary64 a b.neg := by
  cases a <;> cases b <;> try rfl
  next s m e hm s' n f hn =>
    simp only [UnpackedFloat.sub, UnpackedFloat.add, UnpackedFloat.neg, apply_neg,
      Int.sub_eq_add_neg]

theorem fits_neg (h : Fits a) : Fits a.neg := by
  cases a <;> exact h

/-- A negative is worth the negative. -/
theorem value?_neg (h : value? a = some x) : value? a.neg = some (-x) := by
  obtain ⟨s, rfl, rfl⟩ | ⟨s, m, e, hm, rfl, rfl⟩ := value?_cases h
  · rfl
  · rw [UnpackedFloat.neg, value?, unit_neg, neg_mul]

/-- A difference is the sum with the negative, and is rounded once. -/
theorem rounds_repacked_sub (ha : Fits a) (hb : Fits b) (hx : value? a = some x)
    (hy : value? b = some y) : Rounds (x - y) (repacked (UnpackedFloat.sub .binary64 a b)) := by
  rw [sub_eq_add, sub_eq_add_neg]
  exact rounds_repacked_add ha (fits_neg hb) hx (value?_neg hy)

end

/-! ## The operations on doubles -/

section

variable {a b : Float} {x y : ℚ}

/-- Doubles are multiplied by taking them apart, multiplying, and packing what comes of it. -/
theorem unpacked_mul (a b : Float) :
    unpacked (a * b) = repacked (UnpackedFloat.mul .binary64 (unpacked a) (unpacked b)) := rfl

/-- Doubles are divided in the same way. -/
theorem unpacked_div (a b : Float) :
    unpacked (a / b) = repacked (UnpackedFloat.div .binary64 (unpacked a) (unpacked b)) := rfl

/-- Doubles are added in the same way. -/
theorem unpacked_add (a b : Float) :
    unpacked (a + b) = repacked (UnpackedFloat.add .binary64 (unpacked a) (unpacked b)) := rfl

/-- The product of two doubles is their product as numbers, rounded. -/
theorem rounds_mul (hx : value? (unpacked a) = some x) (hy : value? (unpacked b) = some y) :
    Rounds (x * y) (unpacked (a * b)) :=
  rounds_repacked_mul (fits_unpacked a) (fits_unpacked b) hx hy

/-- The quotient of two doubles is their quotient as numbers, rounded. -/
theorem rounds_div (hx : value? (unpacked a) = some x) (hy : value? (unpacked b) = some y)
    (hy' : y ≠ 0) : Rounds (x / y) (unpacked (a / b)) :=
  rounds_repacked_div hx hy hy'

/-- The sum of two doubles is their sum as numbers, rounded. -/
theorem rounds_add (hx : value? (unpacked a) = some x) (hy : value? (unpacked b) = some y) :
    Rounds (x + y) (unpacked (a + b)) :=
  rounds_repacked_add (fits_unpacked a) (fits_unpacked b) hx hy

/-- The difference of two doubles is their difference as numbers, rounded. -/
theorem rounds_sub (hx : value? (unpacked a) = some x) (hy : value? (unpacked b) = some y) :
    Rounds (x - y) (unpacked (a - b)) :=
  rounds_repacked_sub (fits_unpacked a) (fits_unpacked b) hx hy

/-- A double that is a positive number. -/
theorem unpacked_of_pos (hx : value? (unpacked a) = some x) (h : 0 < x) :
    ∃ m e hm, unpacked a = .finite .positive m e hm := by
  obtain ⟨s, -, rfl⟩ | ⟨s, m, e, hm, ha, rfl⟩ := value?_cases hx
  · exact absurd h (lt_irrefl 0)
  · cases s with
    | positive => exact ⟨m, e, hm, ha⟩
    | negative =>
      have hpos : (0 : ℚ) < m * 2 ^ e := by positivity
      rw [unit, neg_one_mul] at h
      exact absurd h (neg_neg_of_pos hpos).not_gt

/-- A double that the product reaches as a number is reached by the product of the doubles. -/
theorem atLeast_mul {c d : ℚ} (hx : value? (unpacked a) = some x) (h : 0 < x)
    (hb : AtLeast (unpacked b) c) (hd : IsDouble d) (hle : d ≤ x * c) :
    AtLeast (unpacked (a * b)) d := by
  obtain hinf | ⟨y, hy, hge⟩ := hb
  · obtain ⟨m, e, hm, ha⟩ := unpacked_of_pos hx h
    rw [unpacked_mul, ha, hinf]
    exact .inl (repacked_of_fits (u := .infinity .positive) trivial)
  · exact (rounds_mul hx hy d hd).2 (hle.trans (mul_le_mul_of_nonneg_left hge h.le))

/-- A double that the sum reaches as a number is reached by the sum of the doubles. -/
theorem atLeast_add {c d : ℚ} (hx : value? (unpacked a) = some x) (hb : AtLeast (unpacked b) c)
    (hd : IsDouble d) (hle : d ≤ x + c) : AtLeast (unpacked (a + b)) d := by
  obtain hinf | ⟨y, hy, hge⟩ := hb
  · rw [unpacked_add, hinf]
    obtain ⟨s, ha, -⟩ | ⟨s, m, e, hm, ha, -⟩ := value?_cases hx <;> rw [ha] <;>
      exact .inl (repacked_of_fits (u := .infinity .positive) trivial)
  · exact (rounds_add hx hy d hd).2 (hle.trans (add_le_add_right hge x))

/-- A double that the quotient reaches as a number is reached by the quotient of the doubles. -/
theorem atLeast_div {c d : ℚ} (ha : AtLeast (unpacked a) c) (hy : value? (unpacked b) = some y)
    (h : 0 < y) (hd : IsDouble d) (hle : d ≤ c / y) : AtLeast (unpacked (a / b)) d := by
  obtain hinf | ⟨x, hx, hge⟩ := ha
  · obtain ⟨m, e, hm, hb⟩ := unpacked_of_pos hy h
    rw [unpacked_div, hb, hinf]
    exact .inl (repacked_of_fits (u := .infinity .positive) trivial)
  · exact (rounds_div hx hy h.ne' d hd).2 (hle.trans (div_le_div_of_nonneg_right hge h.le))

/-- A word becomes the double that it is rounded to. -/
theorem rounds_toFloat (n : UInt64) : Rounds n.toNat (unpacked n.toFloat) := by
  have h := rounds_normalize n.toNat 0 .positive
  rw [zpow_zero, mul_one, Int.cast_natCast] at h
  exact h

end

/-! ## Comparing doubles -/

/-- Of two canonical magnitudes the one with the larger exponent is larger. -/
theorem Canonical.lt_of_lt {m n : ℕ} {e f : ℤ} (hm : Canonical m e) (hn : Canonical n f) (h : e < f) :
    (m * 2 ^ e : ℚ) < n * 2 ^ f := by
  have hfull : 2 ^ 52 ≤ n := hn.full.resolve_right (by have := hm.le; omega)
  exact mul_zpow_lt hm.lt (by exact_mod_cast hfull) h

/-- Magnitudes are in the order of their exponents first. -/
theorem Canonical.compare_eq {m n : ℕ} {e f : ℤ} (hm : Canonical m e) (hn : Canonical n f) :
    (compare e f).then (compare m n) = compare (m * 2 ^ e : ℚ) (n * 2 ^ f) := by
  obtain hlt | rfl | hgt := lt_trichotomy e f
  · rw [compare_lt_iff_lt.2 hlt, compare_lt_iff_lt.2 (hm.lt_of_lt hn hlt)]
    rfl
  · have hpow : (0 : ℚ) < 2 ^ e := by positivity
    rw [compare_eq_iff_eq.2 rfl, Ordering.then]
    obtain hlt | rfl | hgt := lt_trichotomy m n
    · rw [compare_lt_iff_lt.2 hlt,
        compare_lt_iff_lt.2 (mul_lt_mul_of_pos_right (Nat.cast_lt.2 hlt) hpow)]
    · rw [compare_eq_iff_eq.2 rfl, compare_eq_iff_eq.2 rfl]
    · rw [compare_gt_iff_gt.2 hgt,
        compare_gt_iff_gt.2 (mul_lt_mul_of_pos_right (Nat.cast_lt.2 hgt) hpow)]
  · rw [compare_gt_iff_gt.2 hgt, compare_gt_iff_gt.2 (hn.lt_of_lt hm hgt)]
    rfl

/-- Negatives compare the other way round. -/
theorem swap_compare_eq (x y : ℚ) : (compare x y).swap = compare (-x) (-y) := by
  obtain hlt | rfl | hgt := lt_trichotomy x y
  · rw [compare_lt_iff_lt.2 hlt, compare_gt_iff_gt.2 (neg_lt_neg hlt)]
    rfl
  · rw [compare_eq_iff_eq.2 rfl, compare_eq_iff_eq.2 rfl]
    rfl
  · rw [compare_gt_iff_gt.2 hgt, compare_lt_iff_lt.2 (neg_lt_neg hgt)]
    rfl

section

variable {a b : UnpackedFloat} {x y : ℚ}

/-- Finite doubles are compared like the numbers that they are. -/
theorem compare_eq (ha : Fits a) (hb : Fits b) (hx : value? a = some x) (hy : value? b = some y) :
    a.compare b = some (compare x y) := by
  obtain ⟨s, rfl, rfl⟩ | ⟨s, m, e, hm, rfl, rfl⟩ := value?_cases hx
  · obtain ⟨s', rfl, rfl⟩ | ⟨s', n, f, hn, rfl, rfl⟩ := value?_cases hy
    · rfl
    · have hpos : (0 : ℚ) < n * 2 ^ f := by positivity
      cases s' with
      | positive => rw [unit, one_mul, compare_lt_iff_lt.2 hpos]; rfl
      | negative => rw [unit, neg_one_mul, compare_gt_iff_gt.2 (neg_neg_of_pos hpos)]; rfl
  · have hpos : (0 : ℚ) < m * 2 ^ e := by positivity
    obtain ⟨s', rfl, rfl⟩ | ⟨s', n, f, hn, rfl, rfl⟩ := value?_cases hy
    · cases s with
      | positive => rw [unit, one_mul, compare_gt_iff_gt.2 hpos]; rfl
      | negative => rw [unit, neg_one_mul, compare_lt_iff_lt.2 (neg_neg_of_pos hpos)]; rfl
    · have hpos' : (0 : ℚ) < n * 2 ^ f := by positivity
      cases s <;> cases s' <;> simp only [unit, one_mul, neg_one_mul]
      · rw [UnpackedFloat.compare, ha.1.compare_eq hb.1]
        exact congrArg some (swap_compare_eq _ _)
      · rw [compare_lt_iff_lt.2 (by linarith)]; rfl
      · rw [compare_gt_iff_gt.2 (by linarith)]; rfl
      · rw [UnpackedFloat.compare, ha.1.compare_eq hb.1]

/-- A number is below one infinity and above the other. -/
theorem compare_infinity_right (hx : value? a = some x) :
    a.compare (.infinity .positive) = some .lt ∧ a.compare (.infinity .negative) = some .gt := by
  obtain ⟨s, rfl, -⟩ | ⟨s, m, e, hm, rfl, -⟩ := value?_cases hx <;> exact ⟨rfl, rfl⟩

/-- The infinities are above and below every number. -/
theorem compare_infinity_left (hx : value? a = some x) :
    UnpackedFloat.compare (.infinity .positive) a = some .gt ∧
      UnpackedFloat.compare (.infinity .negative) a = some .lt := by
  obtain ⟨s, rfl, -⟩ | ⟨s, m, e, hm, rfl, -⟩ := value?_cases hx <;> exact ⟨rfl, rfl⟩

/-- Nothing compares with what is not a number. -/
theorem compare_notANumber_right (u : UnpackedFloat) : u.compare .notANumber = none := by
  cases u <;> rfl

end

section

variable {a b : Float} {x y : ℚ}

theorem le_iff_isLE : a ≤ b ↔ ((unpacked a).compare (unpacked b)).any (·.isLE) = true :=
  decide_eq_true_iff

theorem lt_iff_compare : a < b ↔ (unpacked a).compare (unpacked b) = some .lt :=
  decide_eq_true_iff.trans beq_iff_eq

/-- A double that is a number is at most another one if that is at least the number. -/
theorem le_iff_atLeast (hx : value? (unpacked a) = some x) : a ≤ b ↔ AtLeast (unpacked b) x := by
  rw [le_iff_isLE]
  cases hb : unpacked b with
  | notANumber => simp [compare_notANumber_right, AtLeast, value?]
  | infinity s =>
    obtain ⟨hpos, hneg⟩ := compare_infinity_right hx
    cases s <;> simp [hpos, hneg, AtLeast, value?]
  | zero s =>
    rw [compare_eq (b := .zero s) (fits_unpacked a) trivial hx rfl]
    simp [AtLeast, value?, ← Ordering.ne_gt_iff_isLE, compare_le_iff_le]
  | finite s m e hm =>
    rw [compare_eq (fits_unpacked a) (hb ▸ fits_unpacked b) hx rfl]
    simp [AtLeast, value?, ← Ordering.ne_gt_iff_isLE, compare_le_iff_le]

/-- A double is at most one that is a number if it is at most that number. -/
theorem le_iff_atMost (hy : value? (unpacked b) = some y) : a ≤ b ↔ AtMost (unpacked a) y := by
  rw [le_iff_isLE]
  cases ha : unpacked a with
  | notANumber => simp [UnpackedFloat.compare, AtMost, value?]
  | infinity s =>
    obtain ⟨hpos, hneg⟩ := compare_infinity_left hy
    cases s <;> simp [hpos, hneg, AtMost, value?]
  | zero s =>
    rw [compare_eq (a := .zero s) trivial (fits_unpacked b) rfl hy]
    simp [AtMost, value?, ← Ordering.ne_gt_iff_isLE, compare_le_iff_le]
  | finite s m e hm =>
    rw [compare_eq (ha ▸ fits_unpacked a) (fits_unpacked b) rfl hy]
    simp [AtMost, value?, ← Ordering.ne_gt_iff_isLE, compare_le_iff_le]

/-- Doubles are ordered like the numbers that they are. -/
theorem le_of_value?_le (hx : value? (unpacked a) = some x) (hy : value? (unpacked b) = some y)
    (h : x ≤ y) : a ≤ b :=
  (le_iff_atLeast hx).2 (.inr ⟨y, hy, h⟩)

/-- A double is below everything that reaches a larger number. -/
theorem lt_of_atLeast (hx : value? (unpacked a) = some x) (hb : AtLeast (unpacked b) y) (h : x < y) :
    a < b := by
  rw [lt_iff_compare]
  obtain hinf | ⟨z, hz, hle⟩ := hb
  · rw [hinf]
    exact (compare_infinity_right hx).1
  · rw [compare_eq (fits_unpacked a) (fits_unpacked b) hx hz,
      compare_lt_iff_lt.2 (h.trans_le hle)]

theorem float_le_of_lt (h : a < b) : a ≤ b := by
  rw [lt_iff_compare] at h
  rw [le_iff_isLE, h]
  rfl

end

end Typist.Double
