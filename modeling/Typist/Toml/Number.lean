import Typist.Double.Read
import Typist.Toml.Text

/-!
# Numbers and dates in TOML

Whole numbers have 63 bits and a sign, in decimal digits or, without a sign, behind `0x`, `0o` or `0b`.
Floats have a fraction or an exponent, or are one of the words `inf` and `nan`; one that is too large is
refused. Between digits there may be single underscores.

Dates and times are checked against the calendar and kept as text in their one canonical form: a `T`
between date and time, at most nine decimal places without zeros at the end, and `Z` or a signed time
for the offset.
-/

namespace Typist.Toml

/-- Digits of a kind with single underscores between them, without the underscores. -/
def digits? (isDigit : Char → Bool) : Text → Option (Text × Text)
  | [] => none
  | c :: s =>
    if isDigit c then
      match s with
      | '_' :: t =>
        match digits? isDigit t with
        | some (ds, rest) => some (c :: ds, rest)
        | none => some ([c], s)
      | t =>
        match digits? isDigit t with
        | some (ds, rest) => some (c :: ds, rest)
        | none => some ([c], t)
    else none

/-- A number of 63 bits and a sign. -/
def bounded? (negative : Bool) (n : Nat) : Option Int :=
  if negative then (if n ≤ Nat.pow 2 63 then some (-n) else none)
  else if n < Nat.pow 2 63 then some n else none

/-- Digits in a base other than ten, behind its mark. -/
def based? (base : Nat) (s : Text) : Option (Int × Text) := do
  let (ds, rest) ← digits? (fun c => (hexValue? c).any (· < base)) s
  let value := ds.foldl (fun v c => base * v + (hexValue? c).getD 0) 0
  return (← bounded? false value, rest)

/-- Decimal digits, of which the first is a zero only if it stands alone. -/
def whole? (s : Text) : Option (Text × Text) :=
  match s with
  | '0' :: rest => some (['0'], rest)
  | s => digits? Char.isDigit s

/-- A whole number. -/
def int? (s : Text) : Option (Int × Text) :=
  match s with
  | '0' :: 'x' :: s => based? 16 s
  | '0' :: 'o' :: s => based? 8 s
  | '0' :: 'b' :: s => based? 2 s
  | s => do
    let (negative, s) := Double.sign s
    let (ds, rest) ← whole? s
    return (← bounded? negative (decimalValue ds), rest)

/-- The digits behind a point. -/
def fraction? : Text → Option (Text × Text)
  | '.' :: s => digits? Char.isDigit s
  | _ => none

/-- An exponent. -/
def exponent? : Text → Option (Int × Text)
  | c :: s => do
    if c ≠ 'e' && c ≠ 'E' then none
    let (negative, s) := Double.sign s
    let (ds, rest) ← digits? Char.isDigit s
    return (if negative then -decimalValue ds else decimalValue ds, rest)
  | [] => none

/-- A float that is spelled with digits. -/
def spelledFloat? (s : Text) : Option (Float × Text) := do
  let (negative, s) := Double.sign s
  let (ds, s) ← whole? s
  let (f, rest) ← match fraction? s with
    | some (fs, s) =>
      match exponent? s with
      | some (e, rest) => some (Double.ofDigits (ds ++ fs) (e - fs.length), rest)
      | none => some (Double.ofDigits (ds ++ fs) (-fs.length), s)
    | none => (exponent? s).map fun (e, rest) => (Double.ofDigits ds e, rest)
  if !negative && f.isInf then none else return (if negative then -f else f, rest)

/-- A float that is a word. -/
def wordFloat? (s : Text) : Option (Float × Text) :=
  let (negative, s) := Double.sign s
  match Text.after? "inf".toList s, Text.after? "nan".toList s with
  | some rest, _ => some (if negative then -1.0 / 0.0 else 1.0 / 0.0, rest)
  | none, some rest => some (0.0 / 0.0, rest)
  | none, none => none

/-- A float. -/
def float? (s : Text) : Option (Float × Text) :=
  match spelledFloat? s with
  | some found => some found
  | none => wordFloat? s

/-! ## Dates and times -/

/-- A number of so many digits. -/
def places? (n : Nat) (s : Text) : Option (Nat × Text) :=
  let ds := s.take n
  if ds.length = n && ds.all Char.isDigit then some (decimalValue ds, s.drop n) else none

/-- What follows a character. -/
def after? (c : Char) : Text → Option Text
  | d :: s => if c = d then some s else none
  | [] => none

/-- The days of a month. -/
def daysIn (year month : Nat) : Nat :=
  if month = 2 then
    if year % 4 = 0 && (year % 100 ≠ 0 || year % 400 = 0) then 29 else 28
  else if month = 4 || month = 6 || month = 9 || month = 11 then 30
  else 31

/-- A date. -/
def date? (s : Text) : Option (Text × Text) := do
  let (year, t) ← places? 4 s
  let (month, t) ← places? 2 (← after? '-' t)
  let (day, t) ← places? 2 (← after? '-' t)
  if 1 ≤ month && month ≤ 12 && 1 ≤ day && day ≤ daysIn year month then
    some (s.take 10, t)
  else none

/-- Decimal places of a second, nine at most and without zeros at the end; none at all if there is
no point. -/
def secondPlaces (s : Text) : Option (Text × Text) :=
  match s with
  | '.' :: t =>
    match t.takeWhile Char.isDigit with
    | [] => none
    | ds =>
      let kept := ((ds.take 9).reverse.dropWhile (· = '0')).reverse
      some (if kept.isEmpty then [] else '.' :: kept, t.dropWhile Char.isDigit)
  | s => some ([], s)

/-- A time of day. -/
def time? (s : Text) : Option (Text × Text) := do
  let (hour, t) ← places? 2 s
  let (minute, t) ← places? 2 (← after? ':' t)
  let (second, t) ← places? 2 (← after? ':' t)
  let (places, t) ← secondPlaces t
  if hour ≤ 23 && minute ≤ 59 && second ≤ 60 then some (s.take 8 ++ places, t) else none

/-- An offset from the time of the prime meridian, or nothing. -/
def offset? (s : Text) : Option (Text × Text) :=
  match s with
  | 'Z' :: t => some (['Z'], t)
  | 'z' :: t => some (['Z'], t)
  | c :: t =>
    if c = '+' || c = '-' then do
      let (hour, u) ← places? 2 t
      let (minute, u) ← places? 2 (← after? ':' u)
      if hour ≤ 23 && minute ≤ 59 then
        some ((if hour = 0 && minute = 0 then '+' else c) :: t.take 5, u)
      else none
    else some ([], s)
  | [] => some ([], s)

/-- A time behind a date, with the character that parts them. -/
def timeBehind? (s : Text) : Option (Text × Text) :=
  match s with
  | c :: t => do
    if c ≠ 'T' && c ≠ 't' && c ≠ ' ' then none
    let (time, t) ← time? t
    let (offset, t) ← offset? t
    return ('T' :: time ++ offset, t)
  | [] => none

/-- A date, a time, or both. -/
def moment? (s : Text) : Option (Text × Text) :=
  match date? s with
  | some (date, rest) =>
    match timeBehind? rest with
    | some (time, rest) => some (date ++ time, rest)
    | none => some (date, rest)
  | none => time? s

end Typist.Toml
