import Typist.Text

/-!
# Ranges of characters

A property of characters that follows no rule is given by a table: ranges of code points, each with
its first and its last member, in ascending order and apart from each other.
-/

namespace Typist

/-- Ranges of code points, each from its first to its last. -/
abbrev Ranges := List (Nat × Nat)

namespace Ranges

/-- Whether a code point lies in one of the ranges, which are in ascending order. -/
def hasCode (n : Nat) : Ranges → Bool
  | [] => false
  | (first, last) :: rest => if n < first then false else n ≤ last || hasCode n rest

/-- Whether a character lies in one of the ranges. -/
def has (rs : Ranges) (c : Char) : Bool :=
  rs.hasCode c.toNat

end Ranges

end Typist
