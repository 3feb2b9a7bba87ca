import Typist.Markup.Normalize
import Typist.Markup.Tokenize
import Typist.Run
import Typist.Sheet

/-!
# Typewriters

A typewriter types several pieces of markup at the same pace. Each piece is a run of its own, with no
open scopes and an empty ledger, and draws anew, from the seed or from the key; what stays from one to
the next is whether the typewriter was cancelled. After that every run ends where it would wait first.
-/

namespace Typist

/-- The tokens that a piece of markup is played as. -/
def tokensToPlay (markup : Text) : List Token :=
  normalize (tokenize markup)

/-- Something to type with. -/
structure Typewriter where
  pace : Pace
  /-- whether it was cancelled -/
  cancelled : Bool := false

namespace Typewriter

variable {σ : Type} [Surface σ]

/-- A typewriter that stops where it is. -/
def cancel (t : Typewriter) : Typewriter :=
  { t with cancelled := true }

/-- Types tokens on a surface. -/
def typeTokens (t : Typewriter) (tokens : List Token) (surface : σ) : Outcome σ :=
  Typist.typeTokens t.pace (if t.cancelled then .fired else .never) tokens surface

/-- Types markup on a surface. -/
def typeMarkup (t : Typewriter) (markup : Text) (surface : σ) : Outcome σ :=
  t.typeTokens (tokensToPlay markup) surface

end Typewriter

end Typist
