import Typist.Markup.Piece

/-!
# Tokens of a markup text

Reading markup never fails: what is no tag is text. Each piece gives one token, and the body of a
region is read by itself, as if it were a whole text.

* `tokenize` — the tokens of a text, in order;
* `warnings` — what was kept as text although it looks like a tag, with the place of each as an
  offset in bytes; inside a region offsets count from the start of its body.
-/

namespace Typist

/-- The tokens of a markup text. -/
def tokenize (s : Text) : List Token :=
  match _h : nextPiece? s with
  | none => []
  | some (.plain value, rest) => .text value :: tokenize rest
  | some (.opening tag, rest) => .scopeStart tag :: tokenize rest
  | some (.closing tag, rest) => .scopeEnd tag :: tokenize rest
  | some (.pause _ millis, rest) => .pause millis :: tokenize rest
  | some (.region body, rest) => .delete (tokenize body) :: tokenize rest
  | some (.strayDelete, rest) => .text Token.deleteOpen :: tokenize rest
  | some (.strayPause, rest) => .text ['<'] :: tokenize rest
termination_by s.length
decreasing_by
  all_goals first
    | exact length_rest_lt _h
    | exact length_body_lt _h

/-- Something that looks like a tag and is none, with its offset. -/
inductive Warning where
  /-- a `<delete>` that nothing closes -/
  | strayDelete (offset : Nat)
  /-- a `<pause` that starts no pause tag -/
  | strayPause (offset : Nat)
  deriving DecidableEq, Repr

/-- The warnings for a text that stands `offset` bytes into what is read. -/
def warningsFrom (offset : Nat) (s : Text) : List Warning :=
  match _h : nextPiece? s with
  | none => []
  | some (.region body, rest) =>
    warningsFrom 0 body ++ warningsFrom (offset + (Piece.region body).source.utf8Length) rest
  | some (.strayDelete, rest) =>
    .strayDelete offset :: warningsFrom (offset + Piece.strayDelete.source.utf8Length) rest
  | some (.strayPause, rest) =>
    .strayPause offset :: warningsFrom (offset + Piece.strayPause.source.utf8Length) rest
  | some (p, rest) => warningsFrom (offset + p.source.utf8Length) rest
termination_by s.length
decreasing_by
  all_goals first
    | exact length_rest_lt _h
    | exact length_body_lt _h

/-- The warnings for a text, in the order in which they are met. -/
def warnings (s : Text) : List Warning :=
  warningsFrom 0 s

end Typist
