import Typist.Text.Decimal

/-!
# Tokens

What a piece of markup says, in order: characters to type, pauses, the boundaries of formatting
scopes, and delete regions — stretches that are typed in full, held, and then erased. A region
carries its own tokens, so tokens nest.

* `Tag`, `Token` — the two types;
* `Token.typedLength` — how many characters a token types, those it later erases included;
* `Token.markup` — a token written as markup again, pauses in their canonical spelling.
-/

namespace Typist

/-- The kinds of formatting scope. -/
inductive Tag where
  | bold
  | italic
  /-- muted color -/
  | gray
  deriving DecidableEq, Repr

namespace Tag

/-- The three kinds. -/
def all : List Tag := [.bold, .italic, .gray]

/-- The name of a tag, as it stands between angle brackets. -/
def name : Tag → Text
  | .bold => "b".toList
  | .italic => "i".toList
  | .gray => "gray".toList

/-- The tag that has a name. -/
def ofName? (s : Text) : Option Tag :=
  all.find? (·.name = s)

theorem ofName?_name (t : Tag) : ofName? t.name = some t := by
  cases t <;> decide

/-- How a scope is opened in markup. -/
def opening (t : Tag) : Text :=
  '<' :: (t.name ++ ['>'])

/-- How a scope is closed in markup. -/
def closing (t : Tag) : Text :=
  '<' :: '/' :: (t.name ++ ['>'])

end Tag

/-- One unit of markup. -/
inductive Token where
  /-- characters to type -/
  | text (value : Text)
  /-- a wait of so many milliseconds, with nothing to see -/
  | pause (millis : UInt64)
  /-- opens a formatting scope -/
  | scopeStart (tag : Tag)
  /-- closes the nearest open scope with the same tag, and all inside it -/
  | scopeEnd (tag : Tag)
  /-- a script of its own: typed in full, held, then erased -/
  | delete (inner : List Token)
  deriving Repr

mutual

/-- Equality of tokens can be decided. -/
def Token.decEq : (s t : Token) → Decidable (s = t)
  | .text a, .text b => decidable_of_iff (a = b) (by simp)
  | .pause a, .pause b => decidable_of_iff (a = b) (by simp)
  | .scopeStart a, .scopeStart b => decidable_of_iff (a = b) (by simp)
  | .scopeEnd a, .scopeEnd b => decidable_of_iff (a = b) (by simp)
  | .delete a, .delete b =>
    match Token.decEqList a b with
    | isTrue h => isTrue (by rw [h])
    | isFalse h => isFalse (by simpa using h)
  | .text _, .pause _ | .text _, .scopeStart _ | .text _, .scopeEnd _ | .text _, .delete _
  | .pause _, .text _ | .pause _, .scopeStart _ | .pause _, .scopeEnd _ | .pause _, .delete _
  | .scopeStart _, .text _ | .scopeStart _, .pause _ | .scopeStart _, .scopeEnd _
  | .scopeStart _, .delete _
  | .scopeEnd _, .text _ | .scopeEnd _, .pause _ | .scopeEnd _, .scopeStart _
  | .scopeEnd _, .delete _
  | .delete _, .text _ | .delete _, .pause _ | .delete _, .scopeStart _
  | .delete _, .scopeEnd _ => isFalse (by simp)

/-- Equality of token lists can be decided. -/
def Token.decEqList : (s t : List Token) → Decidable (s = t)
  | [], [] => isTrue rfl
  | [], _ :: _ | _ :: _, [] => isFalse (by simp)
  | a :: as, b :: bs =>
    match Token.decEq a b, Token.decEqList as bs with
    | isTrue h, isTrue hs => isTrue (by rw [h, hs])
    | isFalse h, _ => isFalse (by simp [h])
    | _, isFalse hs => isFalse (by simp [hs])

end

instance : DecidableEq Token := Token.decEq

namespace Token

mutual

/-- How many characters a token types, counting those of regions at every depth. -/
def typedLength : Token → Nat
  | .text value => value.length
  | .delete inner => typedLengths inner
  | .pause _ | .scopeStart _ | .scopeEnd _ => 0

/-- How many characters a list of tokens types. -/
def typedLengths : List Token → Nat
  | [] => 0
  | t :: ts => t.typedLength + typedLengths ts

end

/-- The text that opens a delete region. -/
def deleteOpen : Text := "<delete>".toList

/-- The text that closes a delete region. -/
def deleteClose : Text := "</delete>".toList

/-- How a pause tag begins. -/
def pauseOpen : Text := "<pause".toList

/-- The canonical spelling of a pause. -/
def pauseTag (millis : UInt64) : Text :=
  pauseOpen ++ " duration=\"".toList ++ decimal millis.toNat ++ "\"/>".toList

mutual

/-- A token as markup: texts as they are, pauses canonically, a region around its tokens. -/
def markup : Token → Text
  | .text value => value
  | .pause millis => pauseTag millis
  | .scopeStart tag => tag.opening
  | .scopeEnd tag => tag.closing
  | .delete inner => deleteOpen ++ markups inner ++ deleteClose

/-- A list of tokens as markup, one after the other. -/
def markups : List Token → Text
  | [] => []
  | t :: ts => t.markup ++ markups ts

end

theorem typedLengths_append (as bs : List Token) :
    typedLengths (as ++ bs) = typedLengths as + typedLengths bs := by
  induction as with
  | nil => simp [typedLengths]
  | cons a as ih => simp [typedLengths, ih, Nat.add_assoc]

end Token

end Typist
