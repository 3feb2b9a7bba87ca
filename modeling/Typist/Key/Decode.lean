import Typist.Key
import Typist.Text.Decimal

/-!
# Keys as characters

A terminal sends each key as one character, or as a sequence that begins with Escape.

* Most characters are keys of their own. The control characters are letters, digits and the blank with
  Ctrl held, except for those of Enter, Tab and Backspace.
* Behind an Escape, an `O` or a bracket leads to the arrows and the function keys. A bracket also leads
  to reports of the terminal, which are no keys.
* An Escape in front of anything else is Alt, and two of them are the key Escape.
* An Escape that nothing is behind yet is the key Escape. Every other beginning of a sequence waits for
  its end.

A sequence that is none is dropped, with the character that shows it.
-/

namespace Typist

namespace Key

/-- What a terminal has sent so far. -/
inductive Sent where
  /-- a key -/
  | key (k : Key)
  /-- the beginning of a sequence -/
  | unfinished
  /-- something else than a key -/
  | nothing
  deriving DecidableEq, Repr

/-- The character that begins sequences. -/
def escapeChar : Char := Char.ofNat 0x1B

/-- The key that a character is. -/
def ofChar (c : Char) : Key :=
  let n := c.toNat
  if c = '\r' then { code := .enter }
  else if c = '\t' || n = 0x7F then { code := .other }
  else if n = 0 then { code := .char ' ', ctrl := true }
  else if n ≤ 0x1A then { code := .char (Char.ofNat (n - 1 + 'a'.toNat)), ctrl := true }
  else if 0x1C ≤ n && n ≤ 0x1F then { code := .char (Char.ofNat (n - 0x1C + '4'.toNat)), ctrl := true }
  else { code := .char c }

/-- The key that a letter behind an introduction is, where others than `letters` are none. -/
def ofLetter (letters : String) (c : Char) : Sent :=
  if c = 'C' then .key { code := .right }
  else if c ∈ letters.toList then .key { code := .other }
  else .nothing

/-- What is sent behind an Escape, a bracket and a digit, where the last character is given. -/
def numbered (last : Char) : Sent :=
  if last.toNat < 64 || 126 < last.toNat then .unfinished else ofLetter "ABDHFPQS~" last

/-- What is sent behind an Escape and a bracket. -/
def bracketed : Text → Sent
  | [] => .unfinished
  | '[' :: [] => .unfinished
  | '[' :: c :: _ => if c ∈ "ABCDE".toList then .key { code := .other } else .nothing
  | 'M' :: place => if place.length < 3 then .unfinished else .nothing
  | '<' :: place => if place.getLast?.any (· ∈ ['m', 'M']) then .nothing else .unfinished
  | '?' :: report => if report.getLast?.any (· ∈ ['u', 'c']) then .nothing else .unfinished
  | c :: rest =>
    if c.isDigit then rest.getLast?.elim .unfinished numbered else ofLetter "ABDHFZPQS" c

/-- What is sent behind an Escape; `more` tells whether something is sent with it. -/
def escaped (more : Bool) : Text → Sent
  | [] => if more then .unfinished else .key { code := .escape }
  | 'O' :: [] => .unfinished
  | 'O' :: c :: _ => ofLetter "ABDHFPQRS" c
  | '[' :: rest => bracketed rest
  | c :: _ => if c = escapeChar then .key { code := .escape } else .key (ofChar c)

/-- What is sent in some characters. -/
def sent (more : Bool) : Text → Sent
  | [] => .unfinished
  | c :: rest => if c = escapeChar then escaped more rest else .key (ofChar c)

/-- The keys in characters that are sent together, behind the beginning of a sequence; and what is the
beginning of a sequence behind them. -/
def decode (begun : Text) : Text → List Key × Text
  | [] => ([], begun)
  | c :: rest =>
    match sent (!rest.isEmpty) (begun ++ [c]) with
    | .unfinished => decode (begun ++ [c]) rest
    | .nothing => decode [] rest
    | .key k =>
      let (keys, begun) := decode [] rest
      (k :: keys, begun)

end Key

end Typist
