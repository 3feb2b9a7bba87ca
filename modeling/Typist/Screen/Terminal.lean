import Typist.Screen

/-!
# Pictures for terminals

A picture as a terminal is told to draw it: cell by cell from the top left corner, with the look of a
cell stated where it differs from that of the cell before. A place that a wide symbol covers is not
told again.
-/

namespace Typist.Terminal

/-- The character that begins commands, and the bracket behind it. -/
def command (s : String) : Text :=
  [Char.ofNat 0x1B, '['] ++ s.toList

/-- To another screen without a cursor. -/
def enter : Text := command "?1049h" ++ command "?25l"

/-- Back to the first screen and its cursor. -/
def leave : Text := command "?1049l" ++ command "?25h"

/-- The parameters for a color; `base` is `30` for characters and `40` for what is behind them. -/
def colorParameters (base : Nat) : Color → Text
  | .black => ';' :: decimal base
  | .yellow => ';' :: decimal (base + 3)
  | .cyan => ';' :: decimal (base + 6)
  | .darkGray => ';' :: decimal (base + 60)
  | .rgb c =>
    ';' :: decimal (base + 8) ++ ";2;".toList ++ decimal c.red ++ ';' :: decimal c.green ++
      ';' :: decimal c.blue

/-- The command for a look. -/
def look (l : Look) : Text :=
  command "0" ++ (if l.bold then ";1".toList else []) ++ (if l.italic then ";3".toList else []) ++
    (if l.blink then ";5".toList else []) ++ (l.fg.elim [] (colorParameters 30)) ++
    (l.bg.elim [] (colorParameters 40)) ++ ['m']

/-- The cells of a row, where `before` is the look of the last cell and `covered` more places are
covered by it. -/
def row (before : Look) (covered : Nat) : List Cell → Text
  | [] => []
  | cell :: cells =>
    match covered with
    | covered + 1 => row before covered cells
    | 0 =>
      (if cell.look = before then [] else look cell.look) ++ cell.symbol ++
        row cell.look (clusterColumns cell.symbol - 1) cells

/-- A picture. -/
def draw (p : Picture) : Text :=
  p.zipIdx.flatMap fun (cells, y) =>
    command "" ++ decimal (y + 1) ++ ";1H".toList ++ look {} ++ row {} 0 cells

end Typist.Terminal
