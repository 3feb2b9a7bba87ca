import Typist.Double
import Typist.Text.Decimal

/-!
# Delays

A delay is a whole number of nanoseconds, below `2 ^ 64` seconds. Delays are added up to the longest
one and stay there. A number of seconds becomes the nearest delay, and of two equally near ones the
even one; negative numbers, infinite ones and those from `2 ^ 64` on are no delays.
-/

namespace Typist

/-- The nanoseconds in a second. -/
def nanosPerSecond : Nat := 1000000000

/-- The nanoseconds in a millisecond. -/
def nanosPerMilli : Nat := 1000000

/-- A span of time. -/
structure Delay where
  nanos : Nat
  inRange : nanos < UInt64.size * nanosPerSecond := by decide
  deriving DecidableEq, Repr

namespace Delay

/-- No time at all. -/
def zero : Delay where
  nanos := 0

/-- The longest delay. -/
def longest : Delay where
  nanos := UInt64.size * nanosPerSecond - 1

/-- A number of milliseconds. -/
def ofMillis (millis : UInt64) : Delay where
  nanos := millis.toNat * nanosPerMilli
  inRange := by
    have := millis.toNat_lt_size
    simp only [nanosPerMilli, nanosPerSecond]
    omega

/-- The delay of so many nanoseconds, or the longest one. -/
def ofNanos (n : Nat) : Delay where
  nanos := min n longest.nanos
  inRange := Nat.lt_of_le_of_lt (Nat.min_le_right _ _) longest.inRange

/-- Two delays one after the other, or the longest delay. -/
def add (a b : Delay) : Delay :=
  ofNanos (a.nanos + b.nanos)

instance : Add Delay := ⟨add⟩

@[simp] theorem nanos_add (a b : Delay) : (a + b).nanos = min (a.nanos + b.nanos) longest.nanos :=
  rfl

/-- The delay nearest to a number of seconds. -/
def ofSeconds? (f : Float) : Option Delay :=
  match Double.parts? f with
  | none => none
  | some p =>
    if p.negative && p.significand ≠ 0 then none
    else
      let n := p.scaled .toEven nanosPerSecond
      if h : n < UInt64.size * nanosPerSecond then some ⟨n, h⟩ else none

/-- The whole milliseconds that a timer takes for a delay: it wakes on the millisecond. -/
def wakeMillis (d : Delay) : Nat :=
  (d.nanos + (nanosPerMilli - 1)) / nanosPerMilli

/-- A number of nanoseconds as seconds with nine decimal places. -/
def nanosText (n : Nat) : Text :=
  let places := decimal (n % nanosPerSecond)
  decimal (n / nanosPerSecond) ++ '.' :: (List.replicate (9 - places.length) '0' ++ places)

/-- A delay as seconds with nine decimal places. -/
def text (d : Delay) : Text :=
  nanosText d.nanos

end Delay

end Typist
