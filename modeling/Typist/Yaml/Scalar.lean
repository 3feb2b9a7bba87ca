import Typist.Double.Read
import Typist.Text.Hexadecimal

/-!
# Strings in YAML

A string is written so that it reads back as the same string, in the plainest way that does:

* a text with line feeds as a block, a line of the text on each line of the document;
* a text that would read as something else — null, a truth value, a number — in single quotes;
* a text whose characters could be taken for syntax in single quotes too;
* a text with characters that cannot be printed, or with blanks before a line break, in double
  quotes with escapes;
* every other text as it is.

`Yaml.scalar` chooses and writes; `indent` is the column of the lines that go on with the string.
-/

namespace Typist.Yaml

/-- The ways to write a string. -/
inductive ScalarStyle where
  | plain
  | singleQuoted
  | doubleQuoted
  | literal
  deriving DecidableEq, Repr

/-- Whether a character ends a line. -/
def isBreak (c : Char) : Bool :=
  c = '\n' || c = '\r' || c = '\x85' || c = '\u2028' || c = '\u2029'

/-- Whether a character, or the end of the text, can part words. -/
def isGap : Option Char → Bool
  | none => true
  | some c => c = ' ' || c = '\t' || c = '\x00' || isBreak c

/-- Whether a character may stand for itself. -/
def isPrintable (c : Char) : Bool :=
  let n := c.toNat
  n = 0x0A || (0x20 ≤ n && n ≤ 0x7E) || (0xA0 ≤ n && n ≠ 0xFEFF && n ≠ 0xFFFE && n ≠ 0xFFFF)

/-! ## Texts that would read as something else -/

/-- Whether a text reads as null. -/
def isNull (s : Text) : Bool :=
  s.isEmpty || ["null", "Null", "NULL", "~"].any (·.toList = s)

/-- Whether a text reads as a truth value. -/
def isBool (s : Text) : Bool :=
  ["true", "True", "TRUE", "false", "False", "FALSE"].any (·.toList = s)

/-- A text without one sign in front. -/
def unsigned : Text → Text
  | '-' :: s => s
  | '+' :: s => s
  | s => s

/-- Whether a text is digits with a needless zero in front. -/
def isPaddedDigits (s : Text) : Bool :=
  match unsigned s with
  | '0' :: d :: ds => (d :: ds).all Char.isDigit
  | _ => false

/-- Whether a text is a numeral behind the mark of its base. -/
def isBased (s : Text) : Bool :=
  match s with
  | '0' :: 'x' :: d :: ds => (d :: ds).all fun c => (hexValue? c).isSome
  | '0' :: 'o' :: d :: ds => (d :: ds).all fun c => '0' ≤ c && c ≤ '7'
  | '0' :: 'b' :: d :: ds => (d :: ds).all fun c => c = '0' || c = '1'
  | _ => false

/-- The largest magnitude of a whole number. -/
def wholeLimit (negative : Bool) : Nat :=
  if negative then Nat.pow 2 127 else Nat.pow 2 128 - 1

/-- The value of digits in a base. -/
def basedValue (base : Nat) (ds : Text) : Nat :=
  ds.foldl (fun v c => base * v + (hexValue? c).getD 0) 0

/-- Whether a text reads as a whole number. -/
def isWhole (s : Text) : Bool :=
  let (negative, digits) := Double.sign s
  (isBased digits &&
    (let base := match digits with
      | _ :: 'x' :: _ => 16
      | _ :: 'o' :: _ => 8
      | _ => 2
     basedValue base (digits.drop 2) ≤ wholeLimit negative)) ||
  (!digits.isEmpty && digits.all Char.isDigit && !isPaddedDigits s &&
    decimalValue digits ≤ wholeLimit negative)

/-- Whether a text reads as a number with a point or an exponent, or one of the words for what is no
number or has no end. -/
def isFractional (s : Text) : Bool :=
  let positive := match s with
    | '+' :: t => t
    | t => t
  [".inf", ".Inf", ".INF"].any (·.toList = positive) ||
  ["-.inf", "-.Inf", "-.INF", ".nan", ".NaN", ".NAN"].any (·.toList = s) ||
  (!(s.length ≠ positive.length && (positive.head? = some '+' || positive.head? = some '-')) &&
    (match Double.read? positive with
      | some f => f.isFinite
      | none => false))

/-- Whether a text would not read as a string. -/
def isAmbiguous (s : Text) : Bool :=
  isNull s || isBool s || isWhole s || isPaddedDigits s || isFractional s

/-! ## Texts with characters that could be syntax -/

/-- Characters that mean something at the start of a value. -/
def indicators : Text := "#,[]\x7b\x7d&*!|>'\"%@`".toList

/-- Whether the first character, with what follows it, could be taken for syntax. -/
def startsSyntax (c : Char) (next : Option Char) : Bool :=
  c ∈ indicators || ((c = '?' || c = ':' || c = '-') && isGap next)

/-- Whether a later character could be taken for syntax, between its neighbours. -/
def goesOnSyntax (before : Char) (c : Char) (next : Option Char) : Bool :=
  (c = ':' && isGap next) || (c = '#' && isGap (some before))

/-- Whether some character behind `before` could be taken for syntax. -/
def hasSyntaxAfter (before : Char) : Text → Bool
  | [] => false
  | c :: cs => goesOnSyntax before c cs.head? || hasSyntaxAfter c cs

/-- Whether a text holds something that could be taken for syntax. -/
def hasSyntax (s : Text) : Bool :=
  match s with
  | [] => false
  | c :: cs =>
    "---".toList.isPrefixOf s || "...".toList.isPrefixOf s || startsSyntax c cs.head? ||
      hasSyntaxAfter c cs

/-- Whether a character of one class stands right before one of another. -/
def adjacent (p q : Char → Bool) (s : Text) : Bool :=
  (s.zip s.tail).any fun (a, b) => p a && q b

/-- Whether a character is the space. -/
def isSpace (c : Char) : Bool := c = ' '

/-- Whether a text can only be written with escapes. -/
def needsEscapes (s : Text) : Bool :=
  s.any (fun c => !isPrintable c) || adjacent isSpace isBreak s

/-- Whether a text may stand as it is. -/
def allowsPlain (s : Text) : Bool :=
  let ends (c : Option Char) := c.any fun c => isSpace c || isBreak c
  !(ends s.head? || ends s.getLast? || s.any isBreak || needsEscapes s || hasSyntax s)

/-- How to write a text. -/
def scalarStyle (s : Text) : ScalarStyle :=
  if '\n' ∈ s then
    if needsEscapes s || s.getLast? = some ' ' then .doubleQuoted else .literal
  else if !isAmbiguous s && allowsPlain s then .plain
  else if needsEscapes s || adjacent isBreak isSpace s then .doubleQuoted
  else .singleQuoted

/-! ## Writing -/

/-- The escape of a character in double quotes, if it needs one. -/
def escape? (c : Char) : Option Text :=
  let n := c.toNat
  match c with
  | '\x00' => some "\\0".toList
  | '\x07' => some "\\a".toList
  | '\x08' => some "\\b".toList
  | '\t' => some "\\t".toList
  | '\n' => some "\\n".toList
  | '\x0b' => some "\\v".toList
  | '\x0c' => some "\\f".toList
  | '\r' => some "\\r".toList
  | '\x1b' => some "\\e".toList
  | '"' => some "\\\"".toList
  | '\\' => some "\\\\".toList
  | '\x85' => some "\\N".toList
  | '\u2028' => some "\\L".toList
  | '\u2029' => some "\\P".toList
  | _ =>
    if isPrintable c then none
    else if n ≤ 0xFF then some ("\\x".toList ++ hexPlaces hexCapitals 2 n)
    else if n ≤ 0xFFFF then some ("\\u".toList ++ hexPlaces hexCapitals 4 n)
    else some ("\\U".toList ++ hexPlaces hexCapitals 8 n)

/-- A text in double quotes. -/
def doubleQuoted (s : Text) : Text :=
  '"' :: (s.flatMap (fun c => (escape? c).getD [c]) ++ ['"'])

/-- Characters on lines of a given indent; `fresh` where a line has just begun. `each` writes a
character that ends no line. -/
def indented (indent : Nat) (each : Char → Text) (fresh : Bool) : Text → Text
  | [] => []
  | c :: cs =>
    if isBreak c then c :: indented indent each true cs
    else
      (if fresh then List.replicate indent ' ' else []) ++ each c ++ indented indent each false cs

/-- A text in single quotes. -/
def singleQuoted (indent : Nat) (s : Text) : Text :=
  let each (c : Char) : Text := if c = '\'' then ['\'', '\''] else [c]
  let closing := if s.getLast?.any isBreak then List.replicate indent ' ' else []
  '\'' :: (indented indent each false s ++ closing ++ ['\''])

/-- What the header of a block says about the line breaks at its end: nothing of one break, `-` of
none, `+` of more. -/
def chomping (s : Text) : Text :=
  match s.reverse with
  | [] => ['-']
  | [c] => if isBreak c then ['+'] else ['-']
  | c :: d :: _ => if isBreak c then (if isBreak d then ['+'] else []) else ['-']

/-- A text as a block. A block that starts with a blank or a break states its indent. -/
def literal (indent : Nat) (s : Text) : Text :=
  let hint := if s.head?.any (fun c => isSpace c || isBreak c) then ['2'] else []
  '|' :: (hint ++ chomping s ++ '\n' :: indented indent (fun c => [c]) true s)

/-- A text as a value whose further lines start at a column. -/
def scalar (indent : Nat) (s : Text) : Text :=
  match scalarStyle s with
  | .plain => s
  | .singleQuoted => singleQuoted indent s
  | .doubleQuoted => doubleQuoted s
  | .literal => literal indent s

end Typist.Yaml
