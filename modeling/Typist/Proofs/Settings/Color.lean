import Mathlib.Data.List.Basic
import Typist.Settings.Color

/-!
# What is read as a color

A color is written as `#rrggbb`, in hexadecimal digits of either case. Such a text is read as the color
whose parts it gives in two digits each, and a text with no plus in it is read as a color only then. A
plus is taken for a zero where it stands in front of a digit, in the first place of a part.

* `Rgb.TwoDigits`, `Rgb.Part` — how a part is to be written, and what is taken for one besides;
* `Rgb.Spells` — a text that gives a color, part by part;
* `Rgb.ofText?_iff_spells` — which texts are read as a color, and as which one;
* `Rgb.ofText?_plus` — one of them that is not of the form `#rrggbb`.
-/

namespace Typist

/-- A digit is given for a number up to multiples of sixteen. -/
theorem hexDigit_mod (digits : Text) (n : Nat) : hexDigit digits (n % 16) = hexDigit digits n := by
  rw [hexDigit, Nat.mod_mod, hexDigit]

namespace Rgb

variable {s t : Text} {a b : Char} {v : Nat} {c : Rgb}

/-- Two hexadecimal digits for a number, each of either case. -/
def TwoDigits (t : Text) (v : Nat) : Prop :=
  v < 256 ∧ t.map Char.toLower = hexPlaces hexDigits 2 v

/-- What is taken for a part of a color: two digits, or a plus in place of a zero in front of one. -/
def Part (t : Text) (v : Nat) : Prop :=
  TwoDigits t v ∨ ∃ b, t = ['+', b] ∧ TwoDigits ['0', b] v

/-- A text is `#` and behind it the three parts of a color, each as it may be written. -/
def Spells (writes : Text → Nat → Prop) (s : Text) (c : Rgb) : Prop :=
  ∃ r g b, s = '#' :: (r ++ g ++ b) ∧ writes r c.red ∧ writes g c.green ∧ writes b c.blue

/-! ## Parts -/

theorem TwoDigits.length_eq (h : TwoDigits t v) : t.length = 2 := by
  rw [← List.length_map Char.toLower, h.2, hexPlaces_length]

theorem Part.length_eq (h : Part t v) : t.length = 2 := by
  obtain h | ⟨b, rfl, -⟩ := h
  · exact h.length_eq
  · rfl

/-- Two digits are read one by one, the first for sixteen times as much. -/
theorem twoDigits_iff :
    TwoDigits [a, b] v ↔ ∃ x y, hexValue? a = some x ∧ hexValue? b = some y ∧ v = 16 * x + y := by
  have hplaces : hexPlaces hexDigits 2 v = [hexDigit hexDigits (v / 16), hexDigit hexDigits v] := rfl
  simp only [TwoDigits, hplaces, List.map_cons, List.map_nil, List.cons.injEq, and_true,
    hexValue?_eq_some_iff]
  constructor
  · rintro ⟨hv, ha, hb⟩
    refine ⟨v / 16, v % 16, ⟨by omega, ha⟩, ⟨by omega, ?_⟩, by omega⟩
    rw [hexDigit_mod, hb]
  · rintro ⟨x, y, ⟨hx, ha⟩, ⟨hy, hb⟩, hv⟩
    have hfirst : v / 16 = x := by omega
    have hsecond : v % 16 = y := by omega
    refine ⟨by omega, ?_, ?_⟩
    · rw [ha, hfirst]
    · rw [hb, ← hsecond, hexDigit_mod]

/-- A plus is no digit. -/
theorem not_twoDigits_plus : ¬TwoDigits ['+', b] v := by
  intro h
  obtain ⟨x, y, hx, -⟩ := twoDigits_iff.1 h
  cases hx

/-- Without a plus, a part is two digits. -/
theorem part_iff_of_not_mem (h : '+' ∉ t) : Part t v ↔ TwoDigits t v := by
  refine or_iff_left ?_
  rintro ⟨b, rfl, -⟩
  exact h List.mem_cons_self

/-- What is read as a part is what may be written for one. -/
theorem part?_eq_some_iff : part? a b = some v ↔ Part [a, b] v := by
  have hzero : hexValue? '0' = some 0 := by decide
  rw [part?]
  split
  · rename_i ha
    subst ha
    have hpart : Part ['+', b] v ↔ TwoDigits ['0', b] v := by simp [Part, not_twoDigits_plus]
    simp [hpart, twoDigits_iff, hzero]
  · rename_i ha
    have hpart : Part [a, b] v ↔ TwoDigits [a, b] v := by simp [Part, ha]
    simp [hpart, twoDigits_iff, Option.bind_eq_some_iff, eq_comm (a := v)]

/-! ## Colors -/

/-- What is read as a color is what may be written for one. -/
theorem ofText?_eq_some_iff : ofText? s = some c ↔ Spells Part s c := by
  constructor
  · intro h
    unfold ofText? at h
    split at h
    · rename_i r₁ r₂ g₁ g₂ b₁ b₂
      simp only [Option.bind_eq_bind, Option.pure_def, Option.bind_eq_some_iff,
        part?_eq_some_iff] at h
      obtain ⟨red, hred, green, hgreen, blue, hblue, hc⟩ := h
      cases hc
      exact ⟨[r₁, r₂], [g₁, g₂], [b₁, b₂], rfl, hred, hgreen, hblue⟩
    · cases h
  · rintro ⟨r, g, b, rfl, hr, hg, hb⟩
    obtain ⟨r₁, r₂, rfl⟩ := List.length_eq_two.1 hr.length_eq
    obtain ⟨g₁, g₂, rfl⟩ := List.length_eq_two.1 hg.length_eq
    obtain ⟨b₁, b₂, rfl⟩ := List.length_eq_two.1 hb.length_eq
    simp [ofText?, part?_eq_some_iff.2 hr, part?_eq_some_iff.2 hg, part?_eq_some_iff.2 hb]

/-- Without a plus, each part of a color is two digits. -/
theorem spells_iff_of_not_mem (h : '+' ∉ s) : Spells Part s c ↔ Spells TwoDigits s c := by
  refine exists_congr fun r => exists_congr fun g => exists_congr fun b => and_congr_right ?_
  rintro rfl
  simp only [List.mem_cons, List.mem_append, not_or] at h
  obtain ⟨-, ⟨hr, hg⟩, hb⟩ := h
  rw [part_iff_of_not_mem hr, part_iff_of_not_mem hg, part_iff_of_not_mem hb]

/-- **A text is read as a color where it spells one**, and as that color: in two digits for each part, or
in one digit behind a plus. So a text without a plus is read as a color exactly if it is `#rrggbb`. -/
theorem ofText?_iff_spells :
    (ofText? s = some c ↔ Spells Part s c) ∧
      ('+' ∉ s → (ofText? s = some c ↔ Spells TwoDigits s c)) :=
  ⟨ofText?_eq_some_iff, fun h => ofText?_eq_some_iff.trans (spells_iff_of_not_mem h)⟩

/-- The digits may be of either case, and of both in one color. -/
theorem ofText?_iff_spells_either_case :
    let s : Text := "#8aBcDE".toList
    '+' ∉ s ∧ ofText? s = some ⟨138, 188, 222⟩ ∧ Spells TwoDigits s ⟨138, 188, 222⟩ := by
  intro s
  have hplus : '+' ∉ s := by decide
  have hread : ofText? s = some ⟨138, 188, 222⟩ := by decide
  exact ⟨hplus, hread, (ofText?_iff_spells.2 hplus).1 hread⟩

/-- A text that is read as a color, and is not `#` and six digits. -/
theorem ofText?_plus :
    let s : Text := "#+f+f+f".toList
    ofText? s = some ⟨15, 15, 15⟩ ∧ ∀ c, ¬Spells TwoDigits s c := by
  intro s
  refine ⟨by decide, ?_⟩
  rintro c ⟨r, g, b, hs, hr, -, -⟩
  obtain ⟨r₁, r₂, rfl⟩ := List.length_eq_two.1 hr.length_eq
  have hplus : '+' = r₁ := (List.cons.inj (List.cons.inj hs).2).1
  subst hplus
  exact not_twoDigits_plus hr

end Rgb

end Typist
