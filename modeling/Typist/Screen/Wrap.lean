import Typist.Screen.Look
import Typist.Text.Blank
import Typist.Text.Width

/-!
# Wrapping

A line that is too long for a row goes on in the next one. It is broken at blanks, so that a word that
does not fit behind the others goes to the next row as a whole; a word is broken only where it is longer
than a row. The symbols of a line come one at a time, and what a blank or a word will do is known only
when something comes behind it: until then both are kept apart from the row.

* A row that is full is finished when the next symbol comes. Of the blanks that were kept, those that
  the row has room for are gone then, and so is a blank that comes with none of them left.
* A line of nothing but blanks takes two rows, of which the first one is empty.
* A symbol that is wider than a row is left out.
-/

namespace Typist

/-- What is drawn in one place: a cluster of characters, and how it looks. -/
structure Symbol where
  text : Text
  look : Look
  deriving DecidableEq, Repr

namespace Symbol

/-- The columns that a symbol takes. -/
def columns (s : Symbol) : Nat :=
  clusterColumns s.text

/-- The space that is not to be broken at. -/
def fixedSpace : Char := Char.ofNat 0xA0

/-- The space without width. -/
def zeroSpace : Char := Char.ofNat 0x200B

/-- Whether a symbol is a blank that lines can be broken at. -/
def isBreak (s : Symbol) : Bool :=
  s.text = [zeroSpace] || (s.text.all isBlank && s.text ≠ [fixedSpace])

end Symbol

/-- The columns that symbols in a row take. -/
def columnsOf : List Symbol → Nat
  | [] => 0
  | s :: ss => s.columns + columnsOf ss

/-- A line that is being wrapped, as far as its symbols have come. -/
structure Wrapping where
  /-- the finished rows, in order -/
  rows : List (List Symbol) := []
  /-- what the row has that is being filled -/
  row : List Symbol := []
  /-- the blanks behind it -/
  blanks : List Symbol := []
  /-- the word behind them, as far as it has come -/
  word : List Symbol := []
  /-- whether the last symbol was part of a word -/
  inWord : Bool := false

namespace Wrapping

/-- Puts the blanks and the word into the row. -/
def settle (w : Wrapping) : Wrapping :=
  { w with row := w.row ++ w.blanks ++ w.word, blanks := [], word := [] }

/-- Settles where the symbol that comes ends a word, or where a row with nothing in it would have to
take more than it can. -/
def settleBefore (width : Nat) (s : Symbol) (w : Wrapping) : Wrapping :=
  if (w.inWord && s.isBreak) ||
      (w.row.isEmpty && width < columnsOf w.blanks + columnsOf w.word + s.columns) then w.settle
  else w

/-- Whether a symbol does not go into the row any more: because that is full, or would be with what is
kept. -/
def isFullFor (width : Nat) (s : Symbol) (w : Wrapping) : Bool :=
  width ≤ columnsOf w.row ||
    (0 < s.columns && width ≤ columnsOf w.row + columnsOf w.blanks + columnsOf w.word)

/-- Blanks without those at their front that so many columns have room for. -/
def dropFitting : (room : Nat) → List Symbol → List Symbol
  | _, [] => []
  | room, s :: ss => if room < s.columns then s :: ss else dropFitting (room - s.columns) ss

/-- Finishes the row. -/
def breakRow (width : Nat) (w : Wrapping) : Wrapping :=
  { w with
    rows := w.rows ++ [w.row]
    row := []
    blanks := dropFitting (width - columnsOf w.row) w.blanks }

/-- Keeps a symbol. -/
def keep (s : Symbol) (w : Wrapping) : Wrapping :=
  if s.isBreak then { w with blanks := w.blanks ++ [s], inWord := false }
  else { w with word := w.word ++ [s], inWord := true }

/-- What becomes of a line with the symbol that comes next. -/
def add (width : Nat) (w : Wrapping) (s : Symbol) : Wrapping :=
  if width < s.columns then w
  else
    let w := w.settleBefore width s
    if w.isFullFor width s then
      let w := w.breakRow width
      if s.isBreak && w.blanks.isEmpty then w else w.keep s
    else w.keep s

/-- The rows of a line that has come to its end. -/
def finish (w : Wrapping) : List (List Symbol) :=
  let onlyBlanks := w.row.isEmpty && w.word.isEmpty && !w.blanks.isEmpty
  let last := w.settle.row
  let rows := w.rows ++ (if onlyBlanks then [[]] else []) ++ (if last.isEmpty then [] else [last])
  if rows.isEmpty then [[]] else rows

end Wrapping

/-- The rows that the symbols of a line take, where a row has so many columns. -/
def wrap (width : Nat) (ss : List Symbol) : List (List Symbol) :=
  (ss.foldl (Wrapping.add width) {}).finish

end Typist
