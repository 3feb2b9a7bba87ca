import Typist.Text.Decimal

/-!
# Reading doubles

A double on paper is an optional sign, digits with at most one point among or beside them, and an
optional exponent; or `inf`, `infinity` or `nan` in any case. It is read as the nearest double, and a
tie goes to the even one.

`Double.ofDigits` is that last step. Decimals that are far beyond the largest double or below the
smallest are settled by their size alone, so that no power of ten is ever computed for them.
-/

namespace Typist.Double

/-- The double nearest to a whole number times a power of ten. -/
def ofDigits (digits : Text) (exponent : Int) : Float :=
  let value := decimalValue digits
  let size := (decimal value).length + exponent
  if value = 0 || size < -400 then 0.0
  else if 400 < size then 1.0 / 0.0
  else Float.ofScientific value (exponent < 0) exponent.natAbs

/-- The sign at the start of a text, and what follows it. -/
def sign : Text → Bool × Text
  | '-' :: s => (true, s)
  | '+' :: s => (false, s)
  | s => (false, s)

/-- The exponent that a text is; the empty text is none, which is as good as zero. -/
def exponent? : Text → Option Int
  | [] => some 0
  | c :: s =>
    if c = 'e' || c = 'E' then
      let (negative, ds) := sign s
      if ds.isEmpty || !ds.all Char.isDigit then none
      else some (if negative then -decimalValue ds else decimalValue ds)
    else none

/-- The magnitude that a text denotes. -/
def magnitude? (s : Text) : Option Float :=
  let word := s.map Char.toLower
  if word = "inf".toList || word = "infinity".toList then some (1.0 / 0.0)
  else if word = "nan".toList then some (0.0 / 0.0)
  else
    let whole := s.takeWhile Char.isDigit
    let (fraction, rest) := match s.dropWhile Char.isDigit with
      | '.' :: t => (t.takeWhile Char.isDigit, t.dropWhile Char.isDigit)
      | t => ([], t)
    if whole.isEmpty && fraction.isEmpty then none
    else (exponent? rest).map fun e => ofDigits (whole ++ fraction) (e - fraction.length)

/-- The double that a text denotes. -/
def read? (s : Text) : Option Float :=
  let (negative, s) := sign s
  (magnitude? s).map fun f => if negative then -f else f

end Typist.Double
