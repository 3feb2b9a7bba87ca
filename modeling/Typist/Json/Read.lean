import Typist.Json

/-!
# Reading JSON

Each reader takes what it reads from the start of a text and returns it with the rest, or nothing
when the text does not go on as it should. `Json.read?` reads one document with nothing but blanks
around it.
-/

namespace Typist.Json

/-- Whether a character is a blank of JSON: space, tab, line feed or carriage return. -/
def isSpace (c : Char) : Bool :=
  c = ' ' || c = '\n' || c = '\t' || c = '\r'

/-- A text without the blanks at its start. -/
def skipSpace (s : Text) : Text :=
  s.dropWhile isSpace

/-- One digit or more. -/
def digits? (s : Text) : Option (Text × Text) :=
  match s.takeWhile Char.isDigit with
  | [] => none
  | d :: ds => some (d :: ds, s.dropWhile Char.isDigit)

/-- The whole part of a numeral: digits, of which the first is a zero only if it stands alone. -/
def whole? (s : Text) : Option (Text × Text) :=
  match digits? s with
  | some ('0' :: _ :: _, _) => none
  | found => found

/-- The fraction of a numeral, which may be missing. -/
def fraction? : Text → Option (Option Text × Text)
  | '.' :: s => (digits? s).map fun (ds, rest) => (some ds, rest)
  | s => some (none, s)

/-- The digits of an exponent behind its sign. -/
def signedDigits? : Text → Option ((Bool × Text) × Text)
  | '-' :: s => (digits? s).map fun (ds, rest) => ((true, ds), rest)
  | '+' :: s => (digits? s).map fun (ds, rest) => ((false, ds), rest)
  | s => (digits? s).map fun (ds, rest) => ((false, ds), rest)

/-- The exponent of a numeral, which may be missing. -/
def exponent? : Text → Option (Option (Bool × Text) × Text)
  | 'e' :: s => (signedDigits? s).map fun (e, rest) => (some e, rest)
  | 'E' :: s => (signedDigits? s).map fun (e, rest) => (some e, rest)
  | s => some (none, s)

/-- A numeral. -/
def numeral? (s : Text) : Option (Numeral × Text) := do
  let (negative, s) := match s with
    | '-' :: s => (true, s)
    | s => (false, s)
  let (whole, s) ← whole? s
  let (fraction, s) ← fraction? s
  let (exponent, s) ← exponent? s
  return ({ negative, whole, fraction, exponent }, s)

/-- The body of a string, from behind its opening quote to its closing one. Control characters
have to be escaped, and a backslash has to start an escape. -/
def body? : Text → Option (Text × Text)
  | [] => none
  | '"' :: rest => some ([], rest)
  | '\\' :: 'u' :: a :: b :: c :: d :: rest =>
    if (hexNumber? [a, b, c, d]).isSome then
      (body? rest).map fun (body, rest) => ('\\' :: 'u' :: a :: b :: c :: d :: body, rest)
    else none
  | '\\' :: c :: rest =>
    if (shortEscape? c).isSome then
      (body? rest).map fun (body, rest) => ('\\' :: c :: body, rest)
    else none
  | c :: rest =>
    if c = '\\' || c.toNat < 0x20 then none
    else (body? rest).map fun (body, rest) => (c :: body, rest)

mutual

/-- A document at the start of a text, within a depth of `fuel` steps. -/
def valueWithin? : (fuel : Nat) → Text → Option (Json × Text)
  | 0, _ => none
  | fuel + 1, s =>
    match s with
    | '"' :: s => (body? s).map fun (body, rest) => (.string body, rest)
    | '[' :: s =>
      match skipSpace s with
      | ']' :: rest => some (.array [], rest)
      | s => (itemsWithin? fuel s).map fun (items, rest) => (.array items, rest)
    | '{' :: s =>
      match skipSpace s with
      | '}' :: rest => some (.object [], rest)
      | s => (membersWithin? fuel s).map fun (members, rest) => (.object members, rest)
    | s =>
      match Text.after? "null".toList s, Text.after? "true".toList s,
          Text.after? "false".toList s with
      | some rest, _, _ => some (.null, rest)
      | _, some rest, _ => some (.bool true, rest)
      | _, _, some rest => some (.bool false, rest)
      | _, _, _ => (numeral? s).map fun (n, rest) => (.number n, rest)

/-- The items of an array from its first one to its closing bracket. -/
def itemsWithin? : (fuel : Nat) → Text → Option (List Json × Text)
  | 0, _ => none
  | fuel + 1, s => do
    let (item, s) ← valueWithin? fuel s
    match skipSpace s with
    | ',' :: s =>
      let (items, rest) ← itemsWithin? fuel (skipSpace s)
      return (item :: items, rest)
    | ']' :: rest => return ([item], rest)
    | _ => none

/-- The members of an object from its first one to its closing brace. -/
def membersWithin? : (fuel : Nat) → Text → Option (List (Text × Json) × Text)
  | 0, _ => none
  | fuel + 1, s => do
    let '"' :: s := s | none
    let (name, s) ← body? s
    let ':' :: s := skipSpace s | none
    let (value, s) ← valueWithin? fuel (skipSpace s)
    match skipSpace s with
    | ',' :: s =>
      let (members, rest) ← membersWithin? fuel (skipSpace s)
      return ((name, value) :: members, rest)
    | '}' :: rest => return ([(name, value)], rest)
    | _ => none

end

/-- The document that a text starts with, blanks aside. Each step but one in two takes a character,
which bounds the steps. -/
def value? (s : Text) : Option (Json × Text) :=
  valueWithin? (2 * s.length + 2) (skipSpace s)

/-- The document that a text is. -/
def read? (s : Text) : Option Json :=
  match value? s with
  | some (j, rest) => if (skipSpace rest).isEmpty then some j else none
  | none => none

/-- The member of an object with a given name; of several, the last one. -/
def member? (name : Text) : Json → Option Json
  | .object members =>
    (members.reverse.find? fun (n, _) => unescape? n = some name).map Prod.snd
  | _ => none

/-- The text that a document is. -/
def text? : Json → Option Text
  | .string body => unescape? body
  | _ => none

/-- The items of an array. -/
def items? : Json → Option (List Json)
  | .array items => some items
  | _ => none

end Typist.Json
