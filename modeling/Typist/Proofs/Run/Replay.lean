import Typist.Proofs.Markup.ReadBack
import Typist.Proofs.Run.Cancellation
import Typist.Proofs.Run.Shape
import Typist.Proofs.Sheet.Growth
import Typist.Typewriter

/-!
# Typing what a sheet shows

What a sheet shows can be written as markup, and the markup can be typed. If no scope is empty and
neighbouring glyphs nowhere spell something that means something in markup, then the markup is read as
the forest was written: glyphs that stand side by side as one text, and each scope between its two
boundaries. And typed on a blank sheet it grows into the same forest again: each close finds the scope
that was opened for it on top of the open ones, with something in it.

* `Tree.tokensAll`, `Tree.strokesAll` — a forest as tokens, and as strokes;
* `Tree.tokensToPlay_eq` — the markup of a forest is played as its tokens;
* `Run.Grows` — a run has typed a forest where it stands, and is back there;
* `typeTokens_replays` — what a sheet shows types itself.
-/

namespace Typist

/-! ## A forest as tokens -/

/-- Tokens with one more character to type in front. -/
def Token.typed (value : Char) : List Token → List Token
  | .text cs :: ts => .text (value :: cs) :: ts
  | ts => .text [value] :: ts

namespace Tree

mutual

/-- A tree as tokens, in front of others. -/
def tokens : Tree → List Token → List Token
  | .glyph value, ts => Token.typed value ts
  | .scope tag inside, ts => .scopeStart tag :: tokensAll inside (.scopeEnd tag :: ts)

/-- A forest as tokens, in front of others. -/
def tokensAll : List Tree → List Token → List Token
  | [], ts => ts
  | t :: rest, ts => t.tokens (tokensAll rest ts)

end

mutual

/-- A tree as strokes. -/
def strokes : Tree → List Stroke
  | .glyph value => [.type value]
  | .scope tag inside => .opening tag :: (strokesAll inside ++ [.closing tag])

/-- A forest as strokes. -/
def strokesAll : List Tree → List Stroke
  | [] => []
  | t :: ts => t.strokes ++ strokesAll ts

end

mutual

/-- What each scope of a tree holds, at every depth. -/
def insides : Tree → List (List Tree)
  | .glyph _ => []
  | .scope _ inside => inside :: insidesAll inside

/-- What each scope of a forest holds, at every depth. -/
def insidesAll : List Tree → List (List Tree)
  | [] => []
  | t :: ts => t.insides ++ insidesAll ts

end

/-- Nowhere do neighbouring glyphs spell a text that means something in markup. -/
def Clear (ts : List Tree) : Prop :=
  ∀ tag ∈ reserved, ¬tag.map glyph <:+: ts

end Tree

open Typist.Tree

/-! ## Reading the markup of a forest -/

/-- A character in front of tokens joins the text that they begin with, or is a text of its own. -/
theorem Token.typed_cases (value : Char) (ts : List Token) :
    (∃ cs rest, ts = .text cs :: rest ∧ typed value ts = .text (value :: cs) :: rest) ∨
      (∀ t ∈ ts.head?, ¬t.isText) ∧ typed value ts = .text [value] :: ts := by
  match ts with
  | .text cs :: rest => exact .inl ⟨cs, rest, rfl, rfl⟩
  | [] => exact .inr ⟨fun _ ht => (nomatch ht), rfl⟩
  | .pause _ :: _ | .scopeStart _ :: _ | .scopeEnd _ :: _ | .delete _ :: _ =>
    exact .inr ⟨fun t ht => by cases ht; exact Bool.false_ne_true, rfl⟩

theorem Token.markups_typed (value : Char) (ts : List Token) :
    markups (typed value ts) = value :: markups ts := by
  obtain ⟨cs, rest, rfl, ht⟩ | ⟨-, ht⟩ := typed_cases value ts <;> rw [ht] <;> rfl

theorem Token.script_typed (value : Char) (ts : List Token) :
    script (typed value ts) = .type value :: script ts := by
  obtain ⟨cs, rest, rfl, ht⟩ | ⟨-, ht⟩ := typed_cases value ts <;> rw [ht] <;> rfl

namespace Tree

/-- A forest is written as its tokens are. -/
theorem markups_tokensAll (forest : List Tree) (ts : List Token) :
    Token.markups (tokensAll forest ts) = markups forest ++ Token.markups ts := by
  induction forest using forest_induction generalizing ts with
  | nil => rfl
  | glyph value rest ih =>
    rw [tokensAll, tokens, Token.markups_typed, ih]
    rfl
  | scope tag inside rest ihinside ih =>
    rw [tokensAll, tokens, Token.markups, ihinside, Token.markups, ih]
    simp [markups, markup, Token.markup]

/-- The strokes of a forest are those of its tokens. -/
theorem script_tokensAll (forest : List Tree) (ts : List Token) :
    script (tokensAll forest ts) = strokesAll forest ++ script ts := by
  induction forest using forest_induction generalizing ts with
  | nil => rfl
  | glyph value rest ih =>
    rw [tokensAll, tokens, Token.script_typed, ih]
    rfl
  | scope tag inside rest ihinside ih =>
    rw [tokensAll, tokens, script, ihinside, script, ih]
    simp [strokesAll, strokes, Token.strokes]

/-- There are no regions in a forest. -/
theorem delete_not_mem_tokensAll {forest : List Tree} {ts : List Token} {inner : List Token}
    (h : .delete inner ∉ ts) : .delete inner ∉ tokensAll forest ts := by
  induction forest using forest_induction generalizing ts with
  | nil => exact h
  | glyph value rest ih =>
    have hrest := ih h
    rw [tokensAll, tokens]
    obtain ⟨cs, more, hts, ht⟩ | ⟨-, ht⟩ := Token.typed_cases value (tokensAll rest ts)
    · rw [hts] at hrest
      rw [ht]
      simpa using hrest
    · rw [ht]
      simpa using hrest
  | scope tag inside rest ihinside ih =>
    have hrest : .delete inner ∉ Token.scopeEnd tag :: tokensAll rest ts := by simpa using ih h
    rw [tokensAll, tokens]
    simpa using ihinside hrest

theorem Clear.tail {t : Tree} {ts : List Tree} (h : Clear (t :: ts)) : Clear ts :=
  fun tag htag hin => h tag htag (hin.trans (List.suffix_cons t ts).isInfix)

/-- A text that neighbouring trees spell is as clear as they are. -/
theorem Clear.not_infix {ts : List Tree} (h : Clear ts) {value : Text}
    (hvalue : value.map glyph <+: ts) : ∀ tag ∈ reserved, ¬tag <:+: value :=
  fun tag htag hin => h tag htag ((hin.map glyph).trans hvalue.isInfix)

/-- The tokens of a clear forest can be written down, if those behind it can and do not begin with a
text. A text that they begin with is what its first trees spell. -/
theorem writable_tokensAll {forest : List Tree} {ts : List Token} (hclear : Clear forest)
    (hinside : ∀ inside ∈ insidesAll forest, Clear inside) (hts : Writable ts)
    (halone : ∀ t ∈ ts.head?, ¬t.isText) :
    Writable (tokensAll forest ts) ∧
      ∀ value rest, tokensAll forest ts = .text value :: rest → value.map glyph <+: forest := by
  induction forest using forest_induction generalizing ts with
  | nil =>
    refine ⟨hts, fun value rest hval => ?_⟩
    have htext : ts = .text value :: rest := hval
    rw [htext] at halone
    exact absurd rfl (halone _ rfl)
  | glyph value forest ih =>
    obtain ⟨hwritable, hspelled⟩ := ih hclear.tail hinside hts halone
    rw [tokensAll, tokens]
    obtain ⟨cs, rest, hcs, ht⟩ | ⟨hhead, ht⟩ := Token.typed_cases value (tokensAll forest ts)
    · have hprefix : (value :: cs).map glyph <+: .glyph value :: forest :=
        List.cons_prefix_cons.2 ⟨rfl, hspelled cs rest hcs⟩
      rw [hcs] at hwritable
      rw [ht]
      cases hwritable with
      | text _ _ hbehind next =>
        refine ⟨.text (List.cons_ne_nil _ _) (hclear.not_infix hprefix) hbehind next, ?_⟩
        rintro _ _ ⟨⟩
        exact hprefix
    · have hprefix : [value].map glyph <+: .glyph value :: forest :=
        List.cons_prefix_cons.2 ⟨rfl, List.nil_prefix⟩
      rw [ht]
      refine ⟨.text (List.cons_ne_nil _ _) (hclear.not_infix hprefix) hhead hwritable, ?_⟩
      rintro _ _ ⟨⟩
      exact hprefix
  | scope tag inside forest ihinside ih =>
    have hall : Clear inside ∧ (∀ more ∈ insidesAll inside, Clear more) ∧
        ∀ more ∈ insidesAll forest, Clear more := by
      simpa [insidesAll, insides, or_imp, forall_and] using hinside
    obtain ⟨hwritable, -⟩ := ih hclear.tail hall.2.2 hts halone
    have hnotext : ∀ t ∈ (Token.scopeEnd tag :: tokensAll forest ts).head?, ¬t.isText := by
      simp [Token.isText]
    obtain ⟨hwritable', -⟩ := ihinside hall.1 hall.2.1 (.scopeEnd hwritable) hnotext
    exact ⟨.scopeStart hwritable', fun _ _ hval => by cases hval⟩

end Tree

/-- Tokens without a region keep their line breaks. -/
theorem normalize_of_not_mem {ts : List Token} (h : ∀ inner, .delete inner ∉ ts) :
    normalize ts = ts := by
  unfold normalize
  induction ts with
  | nil => rfl
  | cons t ts ih =>
    have hrest := ih fun inner hmem => h inner (List.mem_cons_of_mem t hmem)
    cases t with
    | delete inner => exact absurd List.mem_cons_self (h inner)
    | text | pause | scopeStart | scopeEnd => exact congrArg (List.cons _) hrest

/-- **The markup of a clear forest is played as the tokens of the forest.** -/
theorem Tree.tokensToPlay_eq {forest : List Tree} (hclear : Clear forest)
    (hinside : ∀ inside ∈ insidesAll forest, Clear inside) :
    tokensToPlay (markups forest) = tokensAll forest [] := by
  have hwritable := (writable_tokensAll hclear hinside .nil fun _ ht => nomatch ht).1
  have hmarkups : Token.markups (tokensAll forest []) = markups forest := by
    rw [markups_tokensAll]
    exact List.append_nil _
  have hread : tokenize (markups forest) = tokensAll forest [] :=
    hmarkups ▸ hwritable.reads.tokenize_eq
  rw [tokensToPlay, hread]
  exact normalize_of_not_mem fun inner => delete_not_mem_tokensAll List.not_mem_nil

/-! ## Typing a forest -/

namespace Run

/-- A run has typed a forest where it stands; its scopes are those that were open before, and no close
was ignored. -/
structure Grows (r r' : Run Sheet) (forest : List Tree) : Prop where
  grown : r.surface.Grown r'.surface r.current forest
  scopes : r'.scopes = r.scopes
  ignored : r'.summary.ignoredCloses = r.summary.ignoredCloses

theorem Waits.ignored {r r' : Run Sheet} (hw : Waits r r') :
    r'.summary.ignoredCloses = r.summary.ignoredCloses :=
  (congrArg Summary.ignoredCloses hw.summary :)

section

variable {r r' q : Run Sheet} {as bs : List Tree} {pace : Pace}

theorem Grows.of_waits (h : Grows r r' as) (hw : Waits r' q) : Grows r q as :=
  ⟨hw.surface ▸ h.grown, hw.scopes.trans h.scopes, hw.ignored.trans h.ignored⟩

/-- A run that has grown stands where it stood, and the node is still in use. -/
theorem Grows.current_lt (h : Grows r r' as) (hcurrent : r.current < r.surface.size) :
    r'.current < r'.surface.size := by
  have hsame : r'.current = r.current := congrArg (·.headD .root) h.scopes
  rw [hsame]
  exact Nat.lt_of_lt_of_le hcurrent h.grown.size_le

theorem Grows.trans (h : Grows r r' as) (h' : Grows r' q bs)
    (hcurrent : r.current < r.surface.size) : Grows r q (as ++ bs) where
  grown := by
    have hsame : r'.current = r.current := congrArg (·.headD .root) h.scopes
    exact h.grown.trans (hsame ▸ h'.grown) hcurrent
  scopes := h'.scopes.trans h.scopes
  ignored := h'.ignored.trans h.ignored

/-- A close finds the scope that was opened last if it has its tag, and leaves it if something hangs
from it. -/
theorem made_closing_of_head {tag : Tag} {node : Node} {scopes : List Node}
    (hscopes : r.scopes = node :: scopes) (htag : r.surface.tag? node = some tag)
    (hne : r.surface.children node ≠ []) : r.made (.closing tag) = { r with scopes } := by
  have hclosing : closing? r.surface tag r.scopes = some ([node], scopes) := by
    rw [hscopes, closing?]
    exact if_pos htag
  have hcount : 0 < r.surface.childCount node := by
    rw [Sheet.childCount, ← List.length_reverse]
    exact List.length_pos_of_ne_nil hne
  change r.closeScope tag = _
  rw [closeScope_of_eq_some hclosing, List.foldl_cons, List.foldl_nil, removeIfEmpty]
  exact if_pos hcount

/-- The strokes of a forest without empty scopes let it grow. -/
theorem grows_strokesAll {forest : List Tree} (hfull : ∀ inside ∈ insidesAll forest, inside ≠ [])
    (hcurrent : r.current < r.surface.size)
    (hgo : r.strikeAll pace (strokesAll forest) = .goes r') : Grows r r' forest := by
  induction forest using forest_induction generalizing r r' with
  | nil =>
    cases hgo
    exact ⟨.refl _ _, rfl, rfl⟩
  | glyph value rest ih =>
    obtain ⟨q, hq, hgo⟩ := Step.andThen_eq_goes hgo
    have htyped : Grows r (r.made (.type value)) [.glyph value] :=
      ⟨Sheet.Grown.glyph hcurrent value, rfl, rfl⟩
    have hone := htyped.of_waits (waits_of_strike hq)
    exact hone.trans (ih hfull (hone.current_lt hcurrent) hgo) hcurrent
  | scope tag inside rest ihinside ih =>
    have hall : inside ≠ [] ∧ (∀ more ∈ insidesAll inside, more ≠ []) ∧
        ∀ more ∈ insidesAll rest, more ≠ [] := by
      simpa [insidesAll, insides, or_imp, forall_and] using hfull
    rw [strokesAll, strokes, List.cons_append, List.append_assoc] at hgo
    obtain ⟨opened, hopen, hfrom⟩ := Step.andThen_eq_goes hgo
    obtain ⟨filled, hfill, hbehind⟩ := strikeAll_append_eq_goes hfrom
    obtain ⟨closed, hclose, hrest⟩ := Step.andThen_eq_goes hbehind
    -- what the scope holds grows below the new node, which is the innermost open scope
    cases hopen
    have hnew : (r.openScope tag).surface.size = r.surface.size + 1 :=
      Sheet.size_hang r.surface r.current (.container tag)
    have hbelow : (r.openScope tag).current < (r.openScope tag).surface.size :=
      hnew ▸ Nat.lt_succ_self _
    have hinside := ihinside hall.2.1 hbelow hfill
    have hkind : filled.surface.kind r.surface.size = .container tag := by
      rw [hinside.grown.kind_eq r.surface.size hbelow]
      exact (Sheet.kind_hang hcurrent r.surface.size).trans (if_pos rfl)
    have hchildren : filled.surface.children r.surface.size ≠ [] := by
      obtain ⟨new, hsame, hshows⟩ := hinside.grown.children
      rw [show filled.surface.children r.surface.size = _ from hsame]
      exact List.append_ne_nil_of_right_ne_nil _ (hshows.ne_nil hall.1)
    have hclosed : closed = { filled with scopes := r.scopes } :=
      (Step.goes.inj hclose).symm.trans
        (made_closing_of_head hinside.scopes (Sheet.tag?_eq_some_iff.2 hkind) hchildren)
    have hone : Grows r closed [.scope tag inside] := by
      rw [hclosed]
      exact ⟨Sheet.Grown.scope hcurrent hinside.grown, rfl, hinside.ignored⟩
    exact hone.trans (ih hall.2.2 (hone.current_lt hcurrent) hrest) hcurrent

/-- Opening and closing do not wait; so a run that nobody cancels types a forest to its end if each
wait behind a character is for a delay. -/
theorem exists_goes_strokesAll {forest : List Tree} (hpace : ∀ g, (pace.typingDelay g).1.isSome)
    (h : r.cancel = .never) : ∃ q, r.strikeAll pace (strokesAll forest) = .goes q := by
  induction forest using forest_induction generalizing r with
  | nil => exact ⟨r, rfl⟩
  | glyph value rest ih =>
    obtain ⟨delay, hdelay⟩ := Option.isSome_iff_exists.1 (hpace r.generator)
    have hmade := cancel_made_never (.type value) h
    have hwait : r.wait? pace (.type value) = some (some delay, (pace.typingDelay r.generator).2) :=
      congrArg some (Prod.ext hdelay rfl)
    let behind : Run Sheet :=
      { r.made (.type value) with generator := (pace.typingDelay r.generator).2 }.asked delay .never
    have hgo : r.strike pace (.type value) = .goes behind := by
      rw [strike_eq, hwait]
      exact suspendDrawn_never hmade delay _
    obtain ⟨q, hq⟩ := ih (r := behind) rfl
    exact ⟨q, (congrArg (Step.andThen · _) hgo).trans hq⟩
  | scope tag inside rest ihinside ih =>
    obtain ⟨filled, hfill⟩ := ihinside (cancel_made_never (.opening tag) h)
    have hnever := cancel_strikeAll_never (cancel_made_never (.opening tag) h) hfill
    obtain ⟨q, hq⟩ := ih (cancel_made_never (.closing tag) hnever)
    refine ⟨q, ?_⟩
    rw [strokesAll, strokes, List.cons_append, List.append_assoc]
    change (r.made (.opening tag)).strikeAll pace (strokesAll inside ++ _) = _
    rw [strikeAll_append, hfill]
    exact hq

end

end Run

/-- Without a spread each wait behind a character is for the base delay. -/
theorem Pace.typingDelay_isSome {pace : Pace} (h : spreads pace.jitter = false) (g : Generator) :
    (pace.typingDelay g).1.isSome := by
  rw [typingDelay, spreadDelay, h]
  rfl

/-- **What a sheet shows types itself.** Take a forest in which no scope is empty and neighbouring
glyphs nowhere spell something that means something in markup, and play its markup on a blank sheet. If
nothing ends the run early, the sheet shows the forest again, no close was ignored, and the markup of
the sheet is what was played. And nothing ends it early if nobody cancels it and each wait behind a
character is for a delay. -/
theorem typeTokens_replays {forest : List Tree}
    (hfull : ∀ inside ∈ insidesAll forest, inside ≠ [])
    (hclear : ∀ siblings ∈ forest :: insidesAll forest, Clear siblings) (pace : Pace)
    (cancel : Cancel) :
    let out := typeTokens pace cancel (tokensToPlay (markups forest)) Sheet.blank
    (out.halt = none → out.final.surface.forest = forest ∧
      out.final.summary.ignoredCloses = 0 ∧ out.final.surface.markup = markups forest) ∧
    (cancel = .never → (∀ g, (pace.typingDelay g).1.isSome) → out.halt = none) := by
  intro out
  obtain ⟨hfront, hinside⟩ := List.forall_mem_cons.1 hclear
  have hscript : script (tokensToPlay (markups forest)) = strokesAll forest := by
    rw [tokensToPlay_eq hfront hinside, script_tokensAll]
    exact List.append_nil _
  refine ⟨fun hend => ?_, fun hcancel hpace => ?_⟩
  · obtain ⟨r, hgo, hfinal⟩ := exists_goes_of_halt hend
    rw [hscript] at hgo
    have hgrows := Run.grows_strokesAll (r := .begin pace cancel Sheet.blank) hfull
      (Nat.lt_succ_self 0) hgo
    have hshaped := (Run.shaped_strikeAll (Run.shaped_begin pace cancel)
      (Run.follows_begin pace cancel) hgo).1
    have hforest : out.final.surface.forest = forest := by
      rw [hfinal]
      exact hgrows.grown.forest_eq hshaped.sound.linked
    refine ⟨hforest, ?_, congrArg markups hforest⟩
    rw [hfinal]
    exact hgrows.ignored
  · subst hcancel
    obtain ⟨q, hq⟩ := Run.exists_goes_strokesAll (r := .begin pace .never Sheet.blank) hpace rfl
    have hout : out = .ofStep ((Run.begin pace .never Sheet.blank).strikeAll pace
        (script (tokensToPlay (markups forest)))) := typeTokens_eq pace .never _ _
    rw [hout, hscript, hq]
    rfl

/-- A scope in a scope of the same tag, behind a bracket that begins no tag. -/
theorem typeTokens_replays_nested :
    let forest : List Tree :=
      [.scope .bold [.glyph '<', .scope .bold [.glyph '\n']], .glyph '>']
    let out := typeTokens .steady .never (tokensToPlay (markups forest)) Sheet.blank
    markups forest = "<b><<b>\n</b></b>>".toList ∧ out.halt = none ∧
      out.final.surface.forest = forest ∧ out.final.summary.ignoredCloses = 0 ∧
      out.final.surface.markup = markups forest := by
  intro forest out
  have hlong : ∀ tag ∈ reserved, 3 ≤ tag.length := by decide
  have hshort : ∀ siblings ∈ forest :: insidesAll forest, siblings.length < 3 := by
    simp [forest, insidesAll, insides]
  have hclear : ∀ siblings ∈ forest :: insidesAll forest, Clear siblings := by
    intro siblings hmem tag htag hin
    have hlength := hin.length_le
    rw [List.length_map] at hlength
    have htoo := hlong tag htag
    have hfew := hshort siblings hmem
    omega
  have hfull : ∀ inside ∈ insidesAll forest, inside ≠ [] := by
    simp [forest, insidesAll, insides]
  have hreplays := typeTokens_replays hfull hclear .steady .never
  have hend := hreplays.2 rfl (Pace.typingDelay_isSome (by decide +kernel))
  exact ⟨by decide, hend, hreplays.1 hend⟩

end Typist
