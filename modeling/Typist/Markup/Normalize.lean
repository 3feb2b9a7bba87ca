import Typist.Markup.Token

/-!
# Line breaks behind delete regions

A line break behind `</delete>` keeps markup readable, but once the region is erased it would show
as a blank line. So the first text behind a region loses the line breaks at its start, whatever
pauses and scope boundaries stand between. A text of nothing but line breaks is dropped, and the
next text is looked at instead. Region bodies stay as they are.
-/

namespace Typist

/-- A text without the line breaks at its start; a break is a line feed, or a carriage return with
a line feed. -/
def dropBreaks : Text → Text
  | '\n' :: cs => dropBreaks cs
  | '\r' :: '\n' :: cs => dropBreaks cs
  | cs => cs

/-- Normal form of tokens; `armed` while a region stands before them with no text kept since. -/
def normalizeFrom (armed : Bool) : List Token → List Token
  | [] => []
  | .delete inner :: ts => .delete inner :: normalizeFrom true ts
  | .text value :: ts =>
    if armed then
      match dropBreaks value with
      | [] => normalizeFrom true ts
      | c :: cs => .text (c :: cs) :: normalizeFrom false ts
    else .text value :: normalizeFrom false ts
  | t :: ts => t :: normalizeFrom armed ts

/-- Tokens without the line breaks that stand behind regions. -/
def normalize (ts : List Token) : List Token :=
  normalizeFrom false ts

end Typist
