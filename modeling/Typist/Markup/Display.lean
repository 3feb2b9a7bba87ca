import Typist.Markup.Token
import Typist.Text.Quoted

/-!
# Display form

Tokens written for a reader of listings: `Text("a")`, `Pause(5ms)`, `Start(b)`, `End(b)`, and
`Delete[…]` around the tokens of a region. Tokens in a row are divided by one space.
-/

namespace Typist.Token

mutual

/-- The display form of a token. -/
def display : Token → Text
  | .text value => "Text(".toList ++ quoted value ++ [')']
  | .pause millis => "Pause(".toList ++ decimal millis.toNat ++ "ms)".toList
  | .scopeStart tag => "Start(".toList ++ tag.name ++ [')']
  | .scopeEnd tag => "End(".toList ++ tag.name ++ [')']
  | .delete inner => "Delete[".toList ++ displays inner ++ [']']

/-- The display forms of tokens in a row. -/
def displays : List Token → Text
  | [] => []
  | [t] => t.display
  | t :: ts => t.display ++ ' ' :: displays ts

end

theorem display_text (value : Text) :
    (text value).display = "Text(".toList ++ quoted value ++ [')'] := rfl

theorem display_pause (millis : UInt64) :
    (pause millis).display = "Pause(".toList ++ decimal millis.toNat ++ "ms)".toList := rfl

theorem display_scopeStart (tag : Tag) :
    (scopeStart tag).display = "Start(".toList ++ tag.name ++ [')'] := rfl

theorem display_scopeEnd (tag : Tag) :
    (scopeEnd tag).display = "End(".toList ++ tag.name ++ [')'] := rfl

theorem display_delete (inner : List Token) :
    (delete inner).display = "Delete[".toList ++ displays inner ++ [']'] := rfl

theorem displays_nil : displays [] = [] := rfl

/-- In a row each token but the first one has a space in front. -/
theorem displays_cons (t : Token) (ts : List Token) :
    displays (t :: ts) = t.display ++ ts.flatMap fun u => ' ' :: u.display := by
  induction ts generalizing t with
  | nil => exact (List.append_nil _).symm
  | cons u ts ih =>
    have hrow : displays (t :: u :: ts) = t.display ++ ' ' :: displays (u :: ts) := rfl
    rw [hrow, ih, List.flatMap_cons, List.cons_append]

end Typist.Token
