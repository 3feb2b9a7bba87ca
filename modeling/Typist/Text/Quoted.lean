import Typist.Text.Hexadecimal
import Typist.Text.Printable

/-!
# Quoted texts

A text between double quotes, on one line and with nothing in it that cannot be seen. Quotes and
backslashes get a backslash in front, line feed, carriage return, tab and the zero character have
short escapes, and every other character without a form of its own on paper is given by its code
point, as in `\u{301}`. An apostrophe stays as it is.
-/

namespace Typist

/-- How a character stands between the quotes. -/
def quotedChar (c : Char) : Text :=
  if c = '"' then ['\\', '"']
  else if c = '\\' then ['\\', '\\']
  else if c = '\n' then ['\\', 'n']
  else if c = '\r' then ['\\', 'r']
  else if c = '\t' then ['\\', 't']
  else if c = '\x00' then ['\\', '0']
  else if isPrintable c then [c]
  else ['\\', 'u', '{'] ++ hexadecimal hexDigits c.toNat ++ ['}']

/-- A text between quotes. -/
def quoted (s : Text) : Text :=
  '"' :: (s.flatMap quotedChar ++ ['"'])

end Typist
