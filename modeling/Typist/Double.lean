/-!
# Doubles as fractions

A finite double is a whole number times a power of two. `Double.parts?` takes one apart, and
`Double.roundDiv` rounds a quotient of whole numbers, which is how such a number is brought to a
decimal grid without any loss before the one rounding.
-/

namespace Typist.Double

/-- A finite double: its sign, and a magnitude of `significand · 2 ^ exponent`. -/
structure Parts where
  negative : Bool
  significand : Nat
  exponent : Int
  deriving DecidableEq, Repr

/-- The parts of a double, unless it is infinite or not a number. -/
def parts? (f : Float) : Option Parts :=
  let bits := f.toBits.toNat
  let negative := Nat.pow 2 63 ≤ bits
  let exponent : Nat := bits / Nat.pow 2 52 % Nat.pow 2 11
  let fraction := bits % Nat.pow 2 52
  if exponent = 2047 then none
  else if exponent = 0 then some { negative, significand := fraction, exponent := -1074 }
  else some { negative, significand := Nat.pow 2 52 + fraction, exponent := (exponent : Int) - 1075 }

/-- What becomes of a quotient half way between two whole numbers. -/
inductive Tie where
  /-- it goes to the even neighbour -/
  | toEven
  /-- it goes to the larger neighbour -/
  | up
  deriving DecidableEq, Repr

/-- A quotient rounded to the nearest whole number. -/
def roundDiv (tie : Tie) (num den : Nat) : Nat :=
  let quotient := num / den
  let twice := 2 * (num % den)
  if twice < den then quotient
  else if den < twice then quotient + 1
  else match tie with
    | .toEven => if quotient % 2 = 0 then quotient else quotient + 1
    | .up => quotient + 1

/-- A magnitude times a whole number, rounded. -/
def Parts.scaled (p : Parts) (tie : Tie) (factor : Nat) : Nat :=
  if 0 ≤ p.exponent then p.significand * Nat.pow 2 p.exponent.toNat * factor
  else roundDiv tie (p.significand * factor) (Nat.pow 2 p.exponent.natAbs)

end Typist.Double
