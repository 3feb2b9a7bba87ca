import Typist.Double
import Typist.Proofs.Double.Rounding

/-!
# How doubles are packed

A double has a sign and two fields, of eleven and of 52 bits. What these stand for can be told from
the numbers in the fields alone (`ofFields`), and so it can be told what becomes of a result that is
packed into them.

* `unpack_eq` — a double stands for what its fields do;
* `repacked_of_fits`, `repacked_of_lt` — what fits is kept, and what is too large becomes infinite;
* `fits_unpacked` — what a double stands for fits;
* `parts?_eq` — the parts of a double are those of what it stands for.
-/

namespace Typist.Double

open Float.Model Float.Model.UnpackedFloat

/-- A number that a double can be. -/
def Fits : UnpackedFloat → Prop
  | .finite _ m e _ => Canonical m e ∧ e ≤ 971
  | _ => True

/-- What a sign and the two fields of a double stand for. -/
def ofFields (s : Sign) (exponent fraction : ℕ) : UnpackedFloat :=
  if exponent = 2047 then if fraction = 0 then .infinity s else .notANumber
  else if exponent = 0 then signed s fraction (-1074)
  else signed s (2 ^ 52 + fraction) (exponent - 1075)

section Fields

variable (b : BitVec Format.binary64.numBits)

/-- The fraction is in the 52 lowest bits. -/
theorem toNat_unpackMantissa : (unpackMantissa b).toNat = b.toNat % 2 ^ 52 := by
  simp [unpackMantissa]

/-- The exponent is in the eleven bits above those. -/
theorem toNat_unpackExponent : (unpackExponent b).toNat = b.toNat / 2 ^ 52 % 2 ^ 11 := by
  simp [unpackExponent, Nat.shiftRight_eq_div_pow]

/-- The sign is in the highest bit. -/
theorem toNat_unpackSign : (unpackSign b).toNat = b.toNat / 2 ^ 63 := by
  have hlt : b.toNat < 2 ^ 64 := b.isLt
  simp [unpackSign, Nat.shiftRight_eq_div_pow]
  omega

/-- Unpacking is reading the three fields. -/
theorem unpack_eq : UnpackedFloat.unpack .binary64 b =
    ofFields (.ofBitVec (unpackSign b)) (unpackExponent b).toNat (unpackMantissa b).toNat := by
  have hexp : unpackExponent b = -1#11 ↔ (unpackExponent b).toNat = 2047 :=
    BitVec.toNat_inj.symm
  have hexp' : unpackExponent b = 0#11 ↔ (unpackExponent b).toNat = 0 :=
    BitVec.toNat_inj.symm
  have hman : unpackMantissa b = 0#52 ↔ (unpackMantissa b).toNat = 0 :=
    BitVec.toNat_inj.symm
  have happ : (1#1 ++ unpackMantissa b).toNat = 2 ^ 52 + (unpackMantissa b).toNat := by
    rw [BitVec.toNat_append, ← Nat.shiftLeft_add_eq_or_of_lt (unpackMantissa b).isLt]
    rfl
  simp only [UnpackedFloat.unpack, ofFields, signed, hexp, hexp', hman, happ]
  split_ifs with h1 h2 h3 h4 h5
  · rfl
  · rfl
  · rfl
  · rw [h3]; rfl
  · omega
  · rfl

end Fields

/-- Fields that were packed are unpacked again. -/
theorem unpack_packComponents (s : Sign) (e : BitVec 11) (m : BitVec 52) :
    UnpackedFloat.unpack .binary64 (packComponents .binary64 s e m) = ofFields s e.toNat m.toNat := by
  rw [unpack_eq, unpackSign_packComponents, unpackExponent_packComponents,
    unpackMantissa_packComponents, Sign.ofBitVec_toBitVec]

/-- What a double stands for fits. -/
theorem fits_unpack (b : BitVec Format.binary64.numBits) :
    Fits (UnpackedFloat.unpack .binary64 b) := by
  have hm := (unpackMantissa b).isLt
  have he := (unpackExponent b).isLt
  change _ < 2 ^ 52 at hm
  change _ < 2 ^ 11 at he
  rw [unpack_eq, ofFields]
  split_ifs with h1 h2 h3
  · trivial
  · trivial
  · rw [signed]
    split_ifs
    · trivial
    · exact ⟨⟨by omega, le_refl _, .inr rfl⟩, by decide⟩
  · rw [signed, dif_neg (by omega)]
    exact ⟨⟨by omega, by omega, .inl (by omega)⟩, by omega⟩

/-- Only finite numbers need two fields. -/
theorem pack_finite (s : Sign) {m : ℕ} (e : ℤ) (hm : 0 < m) :
    UnpackedFloat.pack .binary64 (.finite s m e hm) =
      if 2 ^ 11 ≤ (e + 1075).toNat + 1 then packedInfinity .binary64 s
      else if m.log2 + 1 = 53 then
        packComponents .binary64 s (BitVec.ofNat 11 (e + 1075).toNat) (BitVec.ofNat 52 m)
      else packComponents .binary64 s 0#11 (BitVec.ofNat 52 m) := by
  have hbias : e + (Format.binary64.exponentBias : ℤ) + (52 : ℕ) = e + 1075 := by
    change e + 1023 + 52 = _
    omega
  rw [UnpackedFloat.pack]
  simp only [hbias]
  rfl

/-- What is left of a result when it was packed. -/
def repacked (u : UnpackedFloat) : UnpackedFloat :=
  (Float.Model.pack u).unpack

/-- What fits into a double is not changed by packing it. -/
theorem repacked_of_fits {u : UnpackedFloat} (h : Fits u) : repacked u = u := by
  cases u with
  | notANumber => rfl
  | infinity s => cases s <;> rfl
  | zero s => cases s <;> rfl
  | finite s m e hm =>
    obtain ⟨⟨hlt, hle, hfull⟩, hmax⟩ := h
    have hlog : m.log2 + 1 = 53 ↔ 2 ^ 52 ≤ m := by
      rw [Nat.succ_inj, Nat.log2_eq_iff hm.ne']
      omega
    change UnpackedFloat.unpack .binary64 (UnpackedFloat.pack .binary64 (.finite s m e hm)) = _
    rw [pack_finite, if_neg (by omega)]
    split_ifs with hplaces
    · rw [unpack_packComponents, BitVec.toNat_ofNat, BitVec.toNat_ofNat, ofFields, if_neg (by omega),
        if_neg (by omega), signed, dif_neg (by omega)]
      congr 1 <;> omega
    · rw [unpack_packComponents, BitVec.toNat_ofNat, BitVec.toNat_ofNat, ofFields, if_neg (by omega),
        if_pos (by omega), signed, dif_neg (by omega)]
      congr 1 <;> omega

/-- What is too large becomes infinite. -/
theorem repacked_of_lt {s : Sign} {m : ℕ} {e : ℤ} (hm : 0 < m) (h : 971 < e) :
    repacked (.finite s m e hm) = .infinity s := by
  change UnpackedFloat.unpack .binary64 (UnpackedFloat.pack .binary64 (.finite s m e hm)) = _
  rw [pack_finite, if_pos (by omega)]
  cases s <;> rfl

/-- What a double is. -/
def unpacked (f : Float) : UnpackedFloat :=
  f.toModel.unpack

theorem fits_unpacked (f : Float) : Fits (unpacked f) :=
  fits_unpack f.toModel.toBits.toBitVec

/-- A double that is given by its bits. -/
theorem unpacked_ofBits (bits : UInt64) :
    unpacked (.ofBits bits) = UnpackedFloat.unpack .binary64 bits.toBitVec :=
  repacked_of_fits (fits_unpack bits.toBitVec)

/-! ## The parts of a double -/

/-- Whether a sign is the one of a negative number. -/
def isNegative : Sign → Bool
  | .negative => true
  | .positive => false

/-- The parts of an unpacked double. -/
def partsOf? : UnpackedFloat → Option Parts
  | .zero s => some ⟨isNegative s, 0, -1074⟩
  | .finite s m e _ => some ⟨isNegative s, m, e⟩
  | _ => none

/-- The parts of a signed magnitude are what it was made of. -/
theorem partsOf?_signed (s : Sign) (m : ℕ) {e : ℤ} (h : m = 0 → e = -1074) :
    partsOf? (signed s m e) = some ⟨isNegative s, m, e⟩ := by
  rw [signed]
  split_ifs with hm
  · rw [partsOf?, hm, h hm]
  · rfl

/-- The parts of a double are those of what it unpacks to. -/
theorem parts?_eq (f : Float) : parts? f = partsOf? (unpacked f) := by
  obtain ⟨b, hb⟩ : ∃ b : BitVec Format.binary64.numBits, b = f.toModel.toBits.toBitVec := ⟨_, rfl⟩
  have hbits : f.toBits.toNat = b.toNat := hb ▸ rfl
  have hlt := b.isLt
  have hsign : isNegative (.ofBitVec (unpackSign b)) =
      decide (Nat.pow 2 63 ≤ b.toNat) := by
    have hone : unpackSign b = 0#1 ↔ (unpackSign b).toNat = 0 :=
      BitVec.toNat_inj.symm
    rw [Sign.ofBitVec, apply_ite isNegative]
    simp only [hone, toNat_unpackSign, isNegative, Nat.pow_eq]
    split_ifs <;> symm <;> simp <;> omega
  have hunpacked : unpacked f = ofFields (.ofBitVec (unpackSign b))
      (b.toNat / 2 ^ 52 % 2 ^ 11) (b.toNat % 2 ^ 52) := by
    rw [← toNat_unpackMantissa, ← toNat_unpackExponent, ← unpack_eq, hb]
    rfl
  rw [hunpacked, ofFields, parts?]
  simp only [hbits, Nat.pow_eq]
  split_ifs with h1 h2 h3
  · rfl
  · rfl
  · rw [partsOf?_signed _ _ fun _ => rfl, hsign]
  · rw [partsOf?_signed _ _ (by omega), hsign]

end Typist.Double
