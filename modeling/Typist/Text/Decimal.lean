import Typist.Text

/-!
# Decimal numerals

Natural numbers in the ten digits, without leading zeros: `decimal n` writes one and `decimalValue`
reads any run of digits. Writing and reading back gives the number (`decimalValue_decimal`), and
what is written consists of digits (`isDigit_of_mem_decimal`).
-/

namespace Typist

/-- The digit of a number below ten. -/
def digitChar (d : Nat) : Char :=
  Char.ofNat (48 + d % 10)

/-- The number that a digit stands for. -/
def digitValue (c : Char) : Nat :=
  c.toNat - 48

/-- A number in decimal digits, most significant first. -/
def decimal (n : Nat) : Text :=
  if n < 10 then [digitChar n] else decimal (n / 10) ++ [digitChar n]

/-- The number that a run of digits denotes; the empty run is zero. -/
def decimalValue (ds : Text) : Nat :=
  ds.foldl (fun v c => 10 * v + digitValue c) 0

theorem decimalValue_append_singleton (ds : Text) (c : Char) :
    decimalValue (ds ++ [c]) = 10 * decimalValue ds + digitValue c := by
  simp [decimalValue]

theorem isDigit_digitChar (d : Nat) : (digitChar d).isDigit = true := by
  have key : ∀ k < 10, (Char.ofNat (48 + k)).isDigit = true := by decide
  exact key _ (Nat.mod_lt _ (by decide))

@[simp] theorem digitValue_digitChar (d : Nat) : digitValue (digitChar d) = d % 10 := by
  have key : ∀ k < 10, digitValue (Char.ofNat (48 + k)) = k := by decide
  exact key _ (Nat.mod_lt _ (by decide))

/-- What is written reads back as the number. -/
@[simp] theorem decimalValue_decimal (n : Nat) : decimalValue (decimal n) = n := by
  fun_induction decimal n with
  | case1 n h => simp [decimalValue]; omega
  | case2 n h ih => rw [decimalValue_append_singleton, ih, digitValue_digitChar]; omega

theorem decimal_ne_nil (n : Nat) : decimal n ≠ [] := by
  fun_cases decimal n <;> simp

/-- A numeral is made of digits only. -/
theorem isDigit_of_mem_decimal {n : Nat} {c : Char} (h : c ∈ decimal n) : c.isDigit = true := by
  fun_induction decimal n with
  | case1 n hn => simp_all [isDigit_digitChar]
  | case2 n hn ih =>
    rcases List.mem_append.1 h with h | h
    · exact ih h
    · simp_all [isDigit_digitChar]

/-- A number held to 64 bits: one too large becomes the largest. -/
def saturate64 (n : Nat) : UInt64 :=
  UInt64.ofNat (min n (UInt64.size - 1))

theorem saturate64_toNat (n : UInt64) : saturate64 n.toNat = n := by
  have h := n.toNat_lt_size
  rw [saturate64, Nat.min_eq_left (by omega), UInt64.ofNat_toNat]

end Typist
