import Typist.Text.Decimal
import Typist.Text.Hexadecimal

/-!
# JSON documents

A document is kept as it is written: numbers as numerals and strings with their escapes, so that a
reader decides what a numeral or a string is worth when it knows what it is asked for.

* `Json`, `Numeral` — documents and the numerals in them;
* `Json.escape`, `Json.unescape?` — between a text and the body of a string;
* `Json.compact`, `Json.pretty` — a document on one line, and one indented by two spaces a level.

Written strings keep every character outside ASCII as it is.
-/

namespace Typist

/-- A number as it is written: `-12.5e+3` has the whole part `12`, the fraction `5`, and the
exponent `3`. -/
structure Numeral where
  /-- whether a minus stands in front -/
  negative : Bool := false
  /-- the digits before the point -/
  whole : Text
  /-- the digits after the point, if there is one -/
  fraction : Option Text := none
  /-- whether the exponent has a minus, and its digits, if there is one -/
  exponent : Option (Bool × Text) := none
  deriving DecidableEq, Repr

/-- The numeral on paper. -/
def Numeral.text (n : Numeral) : Text :=
  (if n.negative then ['-'] else []) ++ n.whole ++
    (match n.fraction with | none => [] | some ds => '.' :: ds) ++
    (match n.exponent with
      | none => []
      | some (minus, ds) => (if minus then ['e', '-'] else ['e']) ++ ds)

/-- A document; strings are kept with their escapes. -/
inductive Json where
  | null
  | bool (value : Bool)
  | number (value : Numeral)
  /-- a string, as it stands between its quotes -/
  | string (body : Text)
  | array (items : List Json)
  /-- an object; its names too are kept as they stand between their quotes -/
  | object (members : List (Text × Json))

namespace Json

/-- How a character stands in a string. -/
def escapeChar (c : Char) : Text :=
  if c = '"' then ['\\', '"']
  else if c = '\\' then ['\\', '\\']
  else if c = '\n' then ['\\', 'n']
  else if c = '\r' then ['\\', 'r']
  else if c = '\t' then ['\\', 't']
  else if c = '\x08' then ['\\', 'b']
  else if c = '\x0c' then ['\\', 'f']
  else if c.toNat < 0x20 then ['\\', 'u'] ++ hexPlaces hexDigits 4 c.toNat
  else [c]

/-- A text as the body of a string. -/
def escape (s : Text) : Text :=
  s.flatMap escapeChar

/-- What the character behind a backslash stands for; not `u`, which takes digits. -/
def shortEscape? : Char → Option Char
  | '"' => some '"'
  | '\\' => some '\\'
  | '/' => some '/'
  | 'b' => some '\x08'
  | 'f' => some '\x0c'
  | 'n' => some '\n'
  | 'r' => some '\r'
  | 't' => some '\t'
  | _ => none

/-- The text of the body of a string. Escapes of code points beyond sixteen bits come in pairs; half
a pair is no character. -/
def unescape? : Text → Option Text
  | [] => some []
  | '\\' :: 'u' :: a :: b :: c :: d :: '\\' :: 'u' :: e :: f :: g :: h :: cs =>
    match hexNumber? [a, b, c, d], hexNumber? [e, f, g, h] with
    | some high, some low =>
      if 0xD800 ≤ high && high ≤ 0xDBFF then
        if 0xDC00 ≤ low && low ≤ 0xDFFF then
          (unescape? cs).map (Char.ofNat (0x10000 + (high - 0xD800) * 0x400 + (low - 0xDC00)) :: ·)
        else none
      else if 0xDC00 ≤ high && high ≤ 0xDFFF then none
      else (unescape? ('\\' :: 'u' :: e :: f :: g :: h :: cs)).map (Char.ofNat high :: ·)
    | _, _ => none
  | '\\' :: 'u' :: a :: b :: c :: d :: cs =>
    match hexNumber? [a, b, c, d] with
    | some n =>
      if 0xD800 ≤ n && n ≤ 0xDFFF then none else (unescape? cs).map (Char.ofNat n :: ·)
    | none => none
  | '\\' :: c :: cs =>
    match shortEscape? c with
    | some c => (unescape? cs).map (c :: ·)
    | none => none
  | c :: cs => (unescape? cs).map (c :: ·)
termination_by s => s.length

/-- A text as a document. -/
def ofText (s : Text) : Json :=
  .string (escape s)

/-- A natural number as a document. -/
def ofNat (n : Nat) : Json :=
  .number { whole := decimal n }

mutual

/-- A document on one line, without spaces. -/
def compact : Json → Text
  | .null => "null".toList
  | .bool true => "true".toList
  | .bool false => "false".toList
  | .number n => n.text
  | .string body => '"' :: (body ++ ['"'])
  | .array items => '[' :: (compactItems items ++ [']'])
  | .object members => '{' :: (compactMembers members ++ ['}'])

/-- Documents in a row, commas between them. -/
def compactItems : List Json → Text
  | [] => []
  | [j] => j.compact
  | j :: js => j.compact ++ ',' :: compactItems js

/-- Members in a row, commas between them. -/
def compactMembers : List (Text × Json) → Text
  | [] => []
  | [(name, j)] => '"' :: name ++ ['"', ':'] ++ j.compact
  | (name, j) :: js => '"' :: name ++ ['"', ':'] ++ j.compact ++ ',' :: compactMembers js

end

/-- A line feed, and the blanks that start a line at a level. -/
def indentation (level : Nat) : Text :=
  '\n' :: List.replicate (2 * level) ' '

mutual

/-- A document on lines of its own, where `level` counts what is open around it. -/
def prettyAt (level : Nat) : Json → Text
  | .null => "null".toList
  | .bool true => "true".toList
  | .bool false => "false".toList
  | .number n => n.text
  | .string body => '"' :: (body ++ ['"'])
  | .array [] => ['[', ']']
  | .array (j :: js) =>
    '[' :: (prettyItems (level + 1) (j :: js) ++ indentation level ++ [']'])
  | .object [] => ['{', '}']
  | .object (m :: ms) =>
    '{' :: (prettyMembers (level + 1) (m :: ms) ++ indentation level ++ ['}'])

/-- Documents in a row, each on a line of its own. -/
def prettyItems (level : Nat) : List Json → Text
  | [] => []
  | [j] => indentation level ++ j.prettyAt level
  | j :: js => indentation level ++ j.prettyAt level ++ ',' :: prettyItems level js

/-- Members in a row, each on a line of its own. -/
def prettyMembers (level : Nat) : List (Text × Json) → Text
  | [] => []
  | [(name, j)] => indentation level ++ '"' :: name ++ "\": ".toList ++ j.prettyAt level
  | (name, j) :: js =>
    indentation level ++ '"' :: name ++ "\": ".toList ++ j.prettyAt level ++
      ',' :: prettyMembers level js

end

/-- A document indented by two spaces a level. -/
def pretty (j : Json) : Text :=
  j.prettyAt 0

end Json

end Typist
