import Typist.Json

/-!
# What a numeral is worth

A numeral without fraction and exponent is a whole number if it fits 64 bits; a minus in front makes
it negative, which needs 63 bits, and `-0` is not whole but the negative zero. Every other numeral is
a floating-point number.

The floating-point number is the significand, rounded once to a double, multiplied or divided by a
power of ten, rounded once more. The significand is as many leading digits as fit 64 bits; digits of
the whole part behind them count as zeros, and of the fraction as nothing. So a numeral of many
digits may come out one unit beside the nearest double.
-/

namespace Typist

/-- What a numeral is worth. -/
inductive NumeralValue where
  /-- a whole number that is not negative -/
  | natural (value : UInt64)
  /-- minus a whole number that is not zero -/
  | negative (value : Nat)
  /-- any other number -/
  | float (value : Float)

namespace Numeral

/-- The largest number of 64 bits. -/
def largest64 : Nat := UInt64.size - 1

/-- The leading digits that fit 64 bits together, read on from `value`; and the digits behind
them. -/
def significand (value : Nat) : Text → Nat × Text
  | [] => (value, [])
  | c :: cs =>
    let next := 10 * value + digitValue c
    if next ≤ largest64 then significand next cs else (value, c :: cs)

/-- A power of ten as a double. -/
def powerOfTen (n : Nat) : Float :=
  Float.ofScientific 1 false n

/-- A double times a power of ten; nothing if that is infinite. Beyond the tabled powers, a large
exponent is refused and a small one is taken in steps, as many as it takes to reach zero. -/
def scale? (f : Float) (exponent : Int) : Option Float :=
  if 0 ≤ exponent then
    if exponent ≤ 308 then
      let g := f * powerOfTen exponent.toNat
      if g.isInf then none else some g
    else if f == 0.0 then some f else none
  else if exponent.natAbs ≤ 308 then some (f / powerOfTen exponent.natAbs)
  else if exponent.natAbs ≤ 616 then
    some (f / powerOfTen 308 / powerOfTen (exponent.natAbs - 308))
  else if exponent.natAbs ≤ 924 then
    some (f / powerOfTen 308 / powerOfTen 308 / powerOfTen (exponent.natAbs - 616))
  else some (f / powerOfTen 308 / powerOfTen 308 / powerOfTen 308)

/-- The exponent that a numeral states; one beyond 31 bits is given as nothing. -/
def statedExponent? (n : Numeral) : Option Int :=
  match n.exponent with
  | none => some 0
  | some (minus, ds) =>
    let e := decimalValue ds
    if e ≤ Nat.pow 2 31 - 1 then some (if minus then -e else e) else none

/-- The double for a numeral; nothing if it is too large. -/
def float? (n : Numeral) : Option Float := do
  let (whole, more) := significand 0 n.whole
  let fraction := n.fraction.getD []
  let (value, unread) := significand whole fraction
  let shift : Int := more.length - (fraction.length - unread.length : Nat)
  let f := (UInt64.ofNat value).toFloat
  let g ← match n.statedExponent? with
    | some e => scale? f (e + shift)
    | none => if value = 0 || (n.exponent.any Prod.fst) then some 0.0 else none
  return if n.negative then -g else g

/-- What a numeral is worth; nothing if it is too large for a double. -/
def value? (n : Numeral) : Option NumeralValue :=
  let whole := decimalValue n.whole
  if n.fraction.isNone && n.exponent.isNone && whole ≤ largest64 then
    if !n.negative then some (.natural (UInt64.ofNat whole))
    else if whole = 0 || Nat.pow 2 63 < whole then some (.float (-(UInt64.ofNat whole).toFloat))
    else some (.negative whole)
  else n.float?.map .float

/-- What a numeral is worth as a double. -/
def double? (n : Numeral) : Option Float :=
  match n.value? with
  | some (.natural v) => some v.toFloat
  | some (.negative v) => some (-(UInt64.ofNat v).toFloat)
  | some (.float f) => some f
  | none => none

end Numeral

end Typist
