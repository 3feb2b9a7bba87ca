import Typist.Text.Decimal
import Typist.Text.Hexadecimal

/-!
# Characters, blanks and strings in TOML

What stands between the quotes of a string, in its four kinds: with escapes or as it stands, on one
line or on several. Line breaks inside strings of several lines are single line feeds, however they
are written.

Every reader takes what it reads from the start of a text and returns it with the rest.
-/

namespace Typist.Toml

/-- Whether a character may stand in a comment or in a string as it is: the tab and everything that
is no control character. -/
def isPlain (c : Char) : Bool :=
  c = '\t' || (0x20 ≤ c.toNat && c.toNat ≠ 0x7F)

/-- A text without the spaces and tabs at its start. -/
def skipBlanks (s : Text) : Text :=
  s.dropWhile fun c => c = ' ' || c = '\t'

/-- What follows a line break. -/
def afterBreak? : Text → Option Text
  | '\n' :: s => some s
  | '\r' :: '\n' :: s => some s
  | _ => none

/-- A text without the comment at its start, if there is one. -/
def skipComment : Text → Text
  | '#' :: s => s.dropWhile isPlain
  | s => s

/-- A text without the blanks, comments and line breaks at its start; `steps` bounds the lines. -/
def skipLines : (steps : Nat) → Text → Text
  | 0, s => s
  | steps + 1, s =>
    let s := skipComment (skipBlanks s)
    match afterBreak? s with
    | some s => skipLines steps s
    | none => s

/-- A text without all blanks, comments and line breaks at its start. -/
def skipFree (s : Text) : Text :=
  skipLines (s.length + 1) s

/-- The character of a code point given in digits. -/
def codePoint? (digits : Text) : Option Char := do
  let n ← hexNumber? digits
  if n < 0xD800 || (0xE000 ≤ n && n < 0x110000) then some (Char.ofNat n) else none

/-- The character of an escape, behind its backslash. -/
def escape? : Text → Option (Char × Text)
  | 'b' :: s => some ('\x08', s)
  | 't' :: s => some ('\t', s)
  | 'n' :: s => some ('\n', s)
  | 'f' :: s => some ('\x0c', s)
  | 'r' :: s => some ('\r', s)
  | '"' :: s => some ('"', s)
  | '\\' :: s => some ('\\', s)
  | 'u' :: s =>
    if s.length < 4 then none else (codePoint? (s.take 4)).map fun c => (c, s.drop 4)
  | 'U' :: s =>
    if s.length < 8 then none else (codePoint? (s.take 8)).map fun c => (c, s.drop 8)
  | _ => none

/-- The rest of a string on one line, between `quote`s; `escapes` says whether a backslash means
something. -/
def onLine? (quote : Char) (escapes : Bool) : (steps : Nat) → Text → Option (Text × Text)
  | 0, _ => none
  | steps + 1, s =>
    match s with
    | [] => none
    | c :: rest =>
      if c = quote then some ([], rest)
      else if escapes && c = '\\' then do
        let (d, rest) ← escape? rest
        let (ds, rest) ← onLine? quote escapes steps rest
        return (d :: ds, rest)
      else if isPlain c then do
        let (ds, rest) ← onLine? quote escapes steps rest
        return (c :: ds, rest)
      else none

/-- What follows a backslash at the end of a line: blanks, a line break, and all blanks and breaks
behind it. -/
def afterFold? (s : Text) : Option Text :=
  (afterBreak? (skipBlanks s)).map fun s => dropFree (s.length + 1) s
where
  /-- Blanks and breaks dropped, within a number of steps. -/
  dropFree : (steps : Nat) → Text → Text
    | 0, s => s
    | steps + 1, s =>
      let s := skipBlanks s
      match afterBreak? s with
      | some s => dropFree steps s
      | none => s

/-- The rest of a string on several lines, between triple `quote`s. One or two quotes right before
the closing ones belong to the string. -/
def onLines? (quote : Char) (escapes : Bool) : (steps : Nat) → Text → Option (Text × Text)
  | 0, _ => none
  | steps + 1, s =>
    let go (c : Char) (rest : Text) : Option (Text × Text) :=
      (onLines? quote escapes steps rest).map fun (ds, rest) => (c :: ds, rest)
    match s with
    | [] => none
    | c :: rest =>
      if c = quote then
        match rest.takeWhile (· = quote) with
        | [_, _] => some ([], rest.drop 2)
        | [_, _, _] => some ([quote], rest.drop 3)
        | _ :: _ :: _ :: _ :: _ => some ([quote, quote], rest.drop 4)
        | _ => go c rest
      else if escapes && c = '\\' then
        match afterFold? rest with
        | some rest => onLines? quote escapes steps rest
        | none =>
          match escape? rest with
          | some (d, rest) => go d rest
          | none => none
      else
        match afterBreak? s with
        | some rest => go '\n' rest
        | none => if isPlain c then go c rest else none

/-- A string on one line. -/
def shortString? : Text → Option (Text × Text)
  | '"' :: s => onLine? '"' true (s.length + 1) s
  | '\'' :: s => onLine? '\'' false (s.length + 1) s
  | _ => none

/-- A string of several lines. A line break right behind the opening quotes does not belong to it. -/
def longString? (quote : Char) (s : Text) : Option (Text × Text) :=
  let s := (afterBreak? s).getD s
  onLines? quote (quote = '"') (s.length + 1) s

/-- A string of any kind. -/
def string? (s : Text) : Option (Text × Text) :=
  match Text.after? ['"', '"', '"'] s, Text.after? ['\'', '\'', '\''] s with
  | some rest, _ => longString? '"' rest
  | none, some rest => longString? '\'' rest
  | none, none => shortString? s

end Typist.Toml
