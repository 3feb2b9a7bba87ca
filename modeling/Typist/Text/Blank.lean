import Typist.Text

/-!
# Blank characters

The characters with the Unicode property `White_Space`. They may stand around the `=` of a pause
tag, they are trimmed from header lines, and a line of nothing else is blank.

The property is a short list, so it is spelled out: six control characters, the space, and eighteen
characters outside ASCII. The zero-width space, the byte order mark and the Mongolian vowel
separator do not have it.
-/

namespace Typist

/-- Whether a character has the Unicode property `White_Space`. -/
def isBlank (c : Char) : Bool :=
  let n := c.toNat
  (9 ≤ n && n ≤ 13) || n = 0x20 || n = 0x85 || n = 0xA0 || n = 0x1680 ||
    (0x2000 ≤ n && n ≤ 0x200A) || n = 0x2028 || n = 0x2029 || n = 0x202F || n = 0x205F || n = 0x3000

namespace Text

/-- The text without the blanks at its two ends. -/
def trim (s : Text) : Text :=
  s.trimBy isBlank

/-- Whether a text holds nothing but blanks. -/
def isBlank (s : Text) : Bool :=
  s.all Typist.isBlank

end Text

end Typist
