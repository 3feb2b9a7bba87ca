import Typist.Text.Hexadecimal

/-!
# Colors in settings

A color is written as `#rrggbb`, two hexadecimal digits of either case for each of its parts. A part is
read as a numeral, so a plus in front of a single digit is taken too.
-/

namespace Typist

/-- A color by its parts, each below 256. -/
structure Rgb where
  red : Nat
  green : Nat
  blue : Nat
  deriving DecidableEq, Repr

namespace Rgb

/-- A part of a color from its two characters. -/
def part? (a b : Char) : Option Nat :=
  if a = '+' then hexValue? b
  else do return 16 * (← hexValue? a) + (← hexValue? b)

/-- The color that a text denotes. -/
def ofText? : Text → Option Rgb
  | ['#', a, b, c, d, e, f] => do
    return { red := ← part? a b, green := ← part? c d, blue := ← part? e f }
  | _ => none

/-- A color as `#RRGGBB`, in digits of the given case. -/
def text (digits : Text) (c : Rgb) : Text :=
  '#' :: (hexPlaces digits 2 c.red ++ hexPlaces digits 2 c.green ++ hexPlaces digits 2 c.blue)

end Rgb

end Typist
