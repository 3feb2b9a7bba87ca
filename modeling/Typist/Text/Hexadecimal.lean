import Typist.Text

/-!
# Hexadecimal numerals

Numbers in sixteen digits: without leading zeros where a number is written out, and with a fixed
number of places where a format asks for it.
-/

namespace Typist

/-- The sixteen digits in lower case. -/
def hexDigits : Text := "0123456789abcdef".toList

/-- The sixteen digits in upper case. -/
def hexCapitals : Text := "0123456789ABCDEF".toList

/-- The digit of a number below sixteen, from a row of sixteen digits. -/
def hexDigit (digits : Text) (d : Nat) : Char :=
  digits.getD (d % 16) '0'

/-- A number without leading zeros. -/
def hexadecimal (digits : Text) (n : Nat) : Text :=
  if n < 16 then [hexDigit digits n] else hexadecimal digits (n / 16) ++ [hexDigit digits n]

/-- The last `places` digits of a number, zeros in front if need be. -/
def hexPlaces (digits : Text) : (places : Nat) → Nat → Text
  | 0, _ => []
  | places + 1, n => hexPlaces digits places (n / 16) ++ [hexDigit digits n]

/-- The number that a hexadecimal digit of either case stands for. -/
def hexValue? (c : Char) : Option Nat :=
  if '0' ≤ c && c ≤ '9' then some (c.toNat - '0'.toNat)
  else if 'a' ≤ c && c ≤ 'f' then some (c.toNat - 'a'.toNat + 10)
  else if 'A' ≤ c && c ≤ 'F' then some (c.toNat - 'A'.toNat + 10)
  else none

/-- The number that a run of hexadecimal digits denotes, if they all are such digits. -/
def hexNumber? (s : Text) : Option Nat :=
  s.foldl (fun v? c => do return 16 * (← v?) + (← hexValue? c)) (some 0)

@[simp] theorem hexPlaces_length (digits : Text) (places n : Nat) :
    (hexPlaces digits places n).length = places := by
  induction places generalizing n with
  | zero => rfl
  | succ places ih => simp [hexPlaces, ih]

/-- What stands for a number is the digit of that number, in either case. -/
theorem hexValue?_eq_some_iff {c : Char} {d : Nat} :
    hexValue? c = some d ↔ d < 16 ∧ c.toLower = hexDigit hexDigits d := by
  by_cases hc : c.toNat < 128
  · have key : ∀ k < 128, (hexValue? (Char.ofNat k)).all (· < 16) = true ∧
        ∀ d < 16, hexValue? (Char.ofNat k) = some d ↔
          (Char.ofNat k).toLower = hexDigit hexDigits d := by decide +kernel
    obtain ⟨hlt, hiff⟩ := key c.toNat hc
    rw [Char.ofNat_toNat] at hlt hiff
    constructor
    · intro h
      have hd : d < 16 := by simpa [h] using hlt
      exact ⟨hd, (hiff d hd).1 h⟩
    · rintro ⟨hd, h⟩
      exact (hiff d hd).2 h
  · -- beyond the first 128 characters there is neither a digit nor a capital letter to make small
    have hnone : hexValue? c = none := by
      have habove (last : Char) (hlast : last.toNat < 128) : ¬ c ≤ last :=
        fun hle => hc (Nat.lt_of_le_of_lt hle hlast)
      simp [hexValue?, habove '9' (by decide), habove 'f' (by decide), habove 'F' (by decide)]
    have hsame : c.toLower = c := dif_neg fun hcapital =>
      hc (Nat.lt_of_le_of_lt hcapital.2 (by decide))
    have hdigit : ∀ k < 16, (hexDigits.getD k '0').toNat < 128 := by decide
    rw [hnone, hsame]
    constructor
    · intro h
      cases h
    · rintro ⟨-, h⟩
      refine absurd ?_ hc
      rw [h]
      exact hdigit _ (Nat.mod_lt _ (by decide))

theorem hexValue?_hexDigit (d : Nat) : hexValue? (hexDigit hexDigits d) = some (d % 16) := by
  have key : ∀ k < 16, hexValue? (hexDigits.getD k '0') = some k := by decide
  exact key _ (Nat.mod_lt _ (by decide))

theorem hexNumber?_append_singleton (s : Text) (c : Char) :
    hexNumber? (s ++ [c]) = do return 16 * (← hexNumber? s) + (← hexValue? c) := by
  rw [hexNumber?, List.foldl_append]
  rfl

/-- What is written reads back as the number. -/
theorem hexNumber?_hexadecimal (n : Nat) : hexNumber? (hexadecimal hexDigits n) = some n := by
  fun_induction hexadecimal hexDigits n with
  | case1 n h =>
    rw [← List.nil_append [hexDigit hexDigits n], hexNumber?_append_singleton, hexValue?_hexDigit,
      Nat.mod_eq_of_lt h]
    simp [hexNumber?]
  | case2 n h ih =>
    rw [hexNumber?_append_singleton, ih, hexValue?_hexDigit]
    simp
    omega

/-- A numeral is made of digits only. -/
theorem mem_hexDigits_of_mem_hexadecimal {n : Nat} {c : Char} (h : c ∈ hexadecimal hexDigits n) :
    c ∈ hexDigits := by
  have hdigit (d : Nat) : hexDigit hexDigits d ∈ hexDigits := by
    have key : ∀ k < 16, hexDigits.getD k '0' ∈ hexDigits := by decide
    exact key _ (Nat.mod_lt _ (by decide))
  fun_induction hexadecimal hexDigits n with
  | case1 n hn => exact List.mem_singleton.1 h ▸ hdigit n
  | case2 n hn ih =>
    rcases List.mem_append.1 h with h | h
    · exact ih h
    · exact List.mem_singleton.1 h ▸ hdigit n

end Typist
