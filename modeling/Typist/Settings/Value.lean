import Typist.Double.Read
import Typist.Double.Shortest
import Typist.Text.Lowercase

/-!
# Values of settings

Settings come from files and from options, so a value may be of another kind than the setting wants.
It is then converted if there is a sensible way:

* a whole number is taken from a float by rounding, a half away from zero, and cut off at what 64 bits
  hold; from a truth value as one or zero; and from a text that is a word for yes or no, or a numeral;
* a float is taken from the same kinds in the same way, without rounding;
* a truth value is taken from a number, which is false if it is zero, and from a word for yes or no;
* a text is taken from everything but lists, tables and nothing.

Words for yes and no are read in any case. A conversion that fails names what it `Expected`.
-/

namespace Typist

/-- A value of a setting. -/
inductive Value where
  /-- nothing -/
  | nil
  | bool (value : Bool)
  | int (value : Int)
  | float (value : Float)
  | text (value : Text)
  | list (items : List Value)
  | table (entries : List (Text × Value))

/-- What a setting wants and did not get. -/
inductive Expected where
  | integer
  | unsigned
  | float
  | bool
  | text
  deriving DecidableEq, Repr

/-- An expectation in words. -/
def Expected.words : Expected → String
  | .integer => "an integer"
  | .unsigned => "an unsigned 64 bit or less integer"
  | .float => "a floating point"
  | .bool => "a boolean"
  | .text => "a string"

/-- Whether a text is one of the given words. -/
def isOneOf (words : List String) (s : Text) : Bool :=
  words.any (·.toList = s)

/-- The truth value that a word stands for; `one` and `zero` are words too if digits count. -/
def wordTruth? (digits : Bool) (s : Text) : Option Bool :=
  let s := s.lowercase
  if isOneOf ["true", "on", "yes"] s || (digits && s = ['1']) then some true
  else if isOneOf ["false", "off", "no"] s || (digits && s = ['0']) then some false
  else none

/-- The number of 64 bits that a numeral denotes; it may have a plus in front. -/
def unsignedNumeral? (s : Text) : Option UInt64 :=
  let ds := match s with
    | '+' :: t => t
    | t => t
  if ds.isEmpty || !ds.all Char.isDigit || UInt64.size ≤ decimalValue ds then none
  else some (UInt64.ofNat (decimalValue ds))

namespace Value

/-- The number of 64 bits nearest to a float; a half goes up. -/
def roundWord (f : Float) : UInt64 :=
  match Double.parts? f with
  | some p => if p.negative then 0 else saturate64 (p.scaled .up 1)
  | none => if f.isNaN || f < 0.0 then 0 else saturate64 UInt64.size

/-- A value as a whole number. -/
def toWord : Value → Except Expected UInt64
  | .int i =>
    if i < 0 || UInt64.size ≤ i.toNat then .error .unsigned else .ok (UInt64.ofNat i.toNat)
  | .float f => .ok (roundWord f)
  | .bool b => .ok (if b then 1 else 0)
  | .text s =>
    match wordTruth? false s, unsignedNumeral? s with
    | some b, _ => .ok (if b then 1 else 0)
    | none, some n => .ok n
    | none, none => .error .integer
  | .nil | .list _ | .table _ => .error .integer

/-- A value as a float. -/
def toFloat : Value → Except Expected Float
  | .int i => .ok (Float.ofInt i)
  | .float f => .ok f
  | .bool b => .ok (if b then 1.0 else 0.0)
  | .text s =>
    match wordTruth? false s, Double.read? s with
    | some b, _ => .ok (if b then 1.0 else 0.0)
    | none, some f => .ok f
    | none, none => .error .float
  | .nil | .list _ | .table _ => .error .float

/-- A value as a truth value. -/
def toBool : Value → Except Expected Bool
  | .int i => .ok (i ≠ 0)
  | .float f => .ok (f != 0.0)
  | .bool b => .ok b
  | .text s =>
    match wordTruth? true s with
    | some b => .ok b
    | none => .error .bool
  | .nil | .list _ | .table _ => .error .bool

/-- A whole number on paper. -/
def intText (i : Int) : Text :=
  if i < 0 then '-' :: decimal i.natAbs else decimal i.natAbs

/-- A value as a text. -/
def toText : Value → Except Expected Text
  | .int i => .ok (intText i)
  | .float f => .ok (Double.positional f)
  | .bool true => .ok "true".toList
  | .bool false => .ok "false".toList
  | .text s => .ok s
  | .nil | .list _ | .table _ => .error .text

end Value

end Typist
