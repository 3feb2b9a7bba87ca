import Typist.Double
import Typist.Text.Decimal

/-!
# The shortest decimal of a double

A double is written with the fewest digits that read back as the same double; of several such
decimals, with the nearest one. The search is exact: a double of magnitude `m · 2 ^ q` is the nearest
one to every number between `(m - 1/2) · 2 ^ q` and `(m + 1/2) · 2 ^ q`, where the lower half is only
half as wide if `m` is the least significand of its exponent, and where the ends count if `m` is even.
On the grid of decimals with a given number of digits only the two neighbours of the double can be
nearest to it, so these two are tried, first with one digit, then with two, and so on to seventeen.

`Double.positional` writes all digits out, without an exponent and without a point if there is nothing
behind it.
-/

namespace Typist.Double

/-- A decimal: digits, and the place of the point relative to their start. -/
structure DecimalForm where
  digits : Text
  /-- how many digits stand before the point; zeros are meant where there are none -/
  point : Int
  deriving DecidableEq, Repr

/-- `c · 10 ^ e` and `x · 2 ^ q`, each multiplied by the same number so that both are whole. -/
def commonScale (c x : Nat) (e q : Int) : Nat × Nat :=
  (c * Nat.pow 10 e.toNat * Nat.pow 2 (-q).toNat, x * Nat.pow 2 q.toNat * Nat.pow 10 (-e).toNat)

/-- Whether `c · 10 ^ e` reads back as the double of magnitude `m · 2 ^ q`. -/
def readsBack (m : Nat) (q : Int) (c : Nat) (e : Int) : Bool :=
  let least := m = Nat.pow 2 52 && -1074 < q
  let (lo, edge) := commonScale c (4 * m - (if least then 1 else 2)) e (q - 2)
  let (hi, edge') := commonScale c (4 * m + 2) e (q - 2)
  if m % 2 = 0 then edge ≤ lo && hi ≤ edge' else edge < lo && hi < edge'

/-- Twice the distance of `c · 10 ^ e` from `m · 2 ^ q`, in a unit that depends on `e` and `q` only. -/
def distance (m : Nat) (q : Int) (c : Nat) (e : Int) : Nat :=
  let (a, b) := commonScale c m e q
  if a ≤ b then b - a else a - b

/-- The largest whole number `c` with `c · 10 ^ e ≤ m · 2 ^ q`. -/
def floorOn (m : Nat) (q e : Int) : Nat :=
  (m * Nat.pow 2 q.toNat * Nat.pow 10 (-e).toNat) / (Nat.pow 2 (-q).toNat * Nat.pow 10 e.toNat)

/-- The number of digits before the point of `m · 2 ^ q`; minus the number of zeros behind it if the
magnitude is below one. `steps` bounds the zeros that are counted. -/
def pointPlace (m : Nat) (q : Int) : (steps : Nat) → (zeros : Nat) → Int
  | 0, zeros => -zeros
  | steps + 1, zeros =>
    let whole := floorOn m q 0
    if whole ≠ 0 then (decimal whole).length
    else if floorOn m q (-(zeros + 1)) ≠ 0 then -zeros
    else pointPlace m q steps (zeros + 1)

/-- The shortest decimal of at least `17 - steps` digits. -/
def shortestFrom (m : Nat) (q : Int) (point : Int) : (steps : Nat) → Nat × Int
  | 0 => (floorOn m q (point - 17), point - 17)
  | steps + 1 =>
    let e := point - (17 - (steps + 1) + 1 : Nat)
    let below := floorOn m q e
    let above := below + 1
    match readsBack m q below e, readsBack m q above e with
    | true, true =>
      if distance m q above e < distance m q below e then (above, e) else (below, e)
    | true, false => (below, e)
    | false, true => (above, e)
    | false, false => shortestFrom m q point steps

/-- The shortest decimal of a magnitude that is not zero. -/
def shortest (m : Nat) (q : Int) : DecimalForm :=
  let (c, e) := shortestFrom m q (pointPlace m q 400 0) 17
  let digits := decimal c
  { digits := (digits.reverse.dropWhile (· = '0')).reverse, point := digits.length + e }

/-- A decimal with all its digits before and behind the point written out. -/
def DecimalForm.positional (d : DecimalForm) : Text :=
  if d.point ≤ 0 then "0.".toList ++ List.replicate d.point.natAbs '0' ++ d.digits
  else
    let n := d.point.toNat
    if d.digits.length ≤ n then d.digits ++ List.replicate (n - d.digits.length) '0'
    else d.digits.take n ++ '.' :: d.digits.drop n

/-- A double on paper. -/
def positional (f : Float) : Text :=
  match parts? f with
  | none => if f.isNaN then "NaN".toList else if f < 0.0 then "-inf".toList else "inf".toList
  | some p =>
    (if p.negative then ['-'] else []) ++
      (if p.significand = 0 then ['0'] else (shortest p.significand p.exponent).positional)

end Typist.Double
