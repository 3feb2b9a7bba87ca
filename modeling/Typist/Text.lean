/-!
# Texts

A text is the list of its characters. Every rule of this library — where a tag starts, what is
typed and erased, which line is a header — is a rule about characters in order, so the rules are
stated on lists and strings appear only where something is read or shown.

* `Text.after?` — what follows a given beginning;
* `Text.utf8Length` — the number of bytes a text takes when stored, the unit of offsets in the log;
* `Text.trim`, `Text.lines`, `Text.unlines` — what documents and listings need.
-/

namespace Typist

/-- A text, character by character. -/
abbrev Text := List Char

namespace Text

/-- What follows `p` in a text that starts with `p`. -/
def after? : Text → Text → Option Text
  | [], s => some s
  | _ :: _, [] => none
  | p :: ps, c :: cs => if p = c then after? ps cs else none

theorem after?_eq_some_iff {p s r : Text} : p.after? s = some r ↔ s = p ++ r := by
  induction p generalizing s with
  | nil => simp [after?]
  | cons p ps ih =>
    cases s with
    | nil => simp [after?]
    | cons c cs =>
      by_cases h : p = c
      · subst h; simp [after?, ih]
      · simp [after?, h, Ne.symm h]

/-- The number of bytes of the text's UTF-8 form. -/
def utf8Length (s : Text) : Nat :=
  s.foldr (Char.utf8Size · + ·) 0

@[simp] theorem utf8Length_nil : utf8Length [] = 0 := rfl

@[simp] theorem utf8Length_append (s t : Text) :
    utf8Length (s ++ t) = utf8Length s + utf8Length t := by
  induction s with
  | nil => simp
  | cons c cs ih => simpa [utf8Length, Nat.add_assoc] using ih

/-- The text without the characters of a class at its two ends. -/
def trimBy (drops : Char → Bool) (s : Text) : Text :=
  ((s.dropWhile drops).reverse.dropWhile drops).reverse

/-- The pieces between the places where a character stands; a text without it is one piece. -/
def pieces (mark : Char) : Text → List Text
  | [] => [[]]
  | c :: cs =>
    if c = mark then [] :: pieces mark cs
    else match pieces mark cs with
      | [] => [[c]]
      | p :: ps => (c :: p) :: ps

/-- The lines of a text, without the line feeds between them. -/
def lines (s : Text) : List Text :=
  s.pieces '\n'

/-- Lines put together again, a line feed between each two. -/
def unlines (ls : List Text) : Text :=
  ['\n'].intercalate ls

theorem pieces_ne_nil (mark : Char) (s : Text) : pieces mark s ≠ [] := by
  fun_cases pieces mark s <;> simp_all

theorem lines_ne_nil (s : Text) : lines s ≠ [] :=
  pieces_ne_nil _ s

end Text

end Typist
