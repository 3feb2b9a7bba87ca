import Typist.Markup.Tokenize
import Typist.Proofs.Markup.PausePattern

/-!
# Markup is spelled by its tokens

Each token of a text stands for a stretch of it, and the stretches, put together in order, are the
text: a text token for itself, a scope boundary for its tag, a region for its tokens between
`<delete>` and `</delete>`, and a pause for some pause tag of its duration.

* `Spells` — the tokens, the pause tags met among them, and the text that they spell;
* `pauseTags` — the pause tags that reading a text meets, at every depth;
* `tokenize_spells` — reading is lossless, and written again the tokens are the text exactly if each
  pause tag in it was canonical.
-/

namespace Typist

open Token

/-- Tokens spell a text in which the pauses, at every depth and in order, are written as these
pause tags. -/
inductive Spells : List Token → List Text → Text → Prop
  /-- no token spells nothing -/
  | nil : Spells [] [] []
  /-- a text spells itself -/
  | text {value ts tags s} (rest : Spells ts tags s) :
      Spells (.text value :: ts) tags (value ++ s)
  /-- the opening tag of a scope -/
  | scopeStart {tag ts tags s} (rest : Spells ts tags s) :
      Spells (.scopeStart tag :: ts) tags (tag.opening ++ s)
  /-- the closing tag of a scope -/
  | scopeEnd {tag ts tags s} (rest : Spells ts tags s) :
      Spells (.scopeEnd tag :: ts) tags (tag.closing ++ s)
  /-- a tag that begins with `<pause`, has its only `>` at its end, and says the duration -/
  | pause {millis inside ts tags s} (hin : '>' ∉ inside)
      (htag : IsPauseTag (pauseOpen ++ inside ++ ['>']) millis) (rest : Spells ts tags s) :
      Spells (.pause millis :: ts) ((pauseOpen ++ inside ++ ['>']) :: tags)
        (pauseOpen ++ inside ++ ['>'] ++ s)
  /-- a region spells its tokens between its tags -/
  | delete {inner inTags body ts tags s} (inside : Spells inner inTags body)
      (rest : Spells ts tags s) :
      Spells (.delete inner :: ts) (inTags ++ tags) (deleteOpen ++ body ++ deleteClose ++ s)

/-- The pause tags that reading a text meets, those in regions included. -/
def pauseTags (s : Text) : List Text :=
  match _h : nextPiece? s with
  | none => []
  | some (.pause inside millis, rest) => (Piece.pause inside millis).source :: pauseTags rest
  | some (.region body, rest) => pauseTags body ++ pauseTags rest
  | some (_, rest) => pauseTags rest
termination_by s.length
decreasing_by
  all_goals first
    | exact length_rest_lt _h
    | exact length_body_lt _h

/-! ## One piece, one token -/

/-- The token that a piece is read as. -/
def Piece.token : Piece → Token
  | .plain value => .text value
  | .opening tag => .scopeStart tag
  | .closing tag => .scopeEnd tag
  | .pause _ millis => .pause millis
  | .region body => .delete (tokenize body)
  | .strayDelete => .text deleteOpen
  | .strayPause => .text ['<']

/-- The pause tags in a piece. -/
def Piece.pauseTags : Piece → List Text
  | .pause inside millis => [(Piece.pause inside millis).source]
  | .region body => Typist.pauseTags body
  | _ => []

@[simp] theorem tokenize_nil : tokenize [] = [] := by
  rw [tokenize]
  rfl

@[simp] theorem pauseTags_nil : pauseTags [] = [] := by
  rw [pauseTags]
  rfl

/-- The first piece gives the first token. -/
theorem tokenize_eq_cons {s rest : Text} {p : Piece} (h : nextPiece? s = some (p, rest)) :
    tokenize s = p.token :: tokenize rest := by
  rw [tokenize]
  cases p <;> (split <;> simp_all [Piece.token])

/-- The pause tags of the first piece come first. -/
theorem pauseTags_eq_append {s rest : Text} {p : Piece} (h : nextPiece? s = some (p, rest)) :
    pauseTags s = p.pauseTags ++ pauseTags rest := by
  rw [pauseTags]
  cases p <;> (split <;> simp_all [Piece.pauseTags])

/-- The reader of pause tags takes a pause tag of the duration that it finds. -/
theorem isPauseTag_of_readPause? {s inside rest : Text} {millis : UInt64}
    (h : readPause? s = some (inside, millis, rest)) :
    '>' ∉ inside ∧ IsPauseTag (pauseOpen ++ inside ++ ['>']) millis := by
  unfold readPause? at h
  split at h
  · simp at h
  · simp only [Option.map_eq_some_iff, Prod.mk.injEq] at h
    obtain ⟨_, hm, rfl, rfl, -⟩ := h
    have hin : '>' ∉ s.takeWhile fun c => decide (c ≠ '>') := fun hc => by
      simpa using List.mem_takeWhile_imp hc
    exact ⟨hin, (isPauseTag_iff hin).2 hm⟩

/-- A pause that is read off a text is a pause tag of its duration. -/
theorem isPauseTag_of_nextPiece? {s rest inside : Text} {millis : UInt64}
    (h : nextPiece? s = some (.pause inside millis, rest)) :
    '>' ∉ inside ∧ IsPauseTag (pauseOpen ++ inside ++ ['>']) millis := by
  unfold nextPiece? at h
  split at h
  · simp at h
  · rename_i m r _
    cases m with
    | opening tag | closing tag => simp [Marker.piece] at h
    | delete =>
      simp only [Marker.piece] at h
      split at h <;> simp at h
    | pause =>
      simp only [Marker.piece] at h
      split at h
      · rename_i hread
        simp only [Option.some.injEq, Prod.mk.injEq, Piece.pause.injEq] at h
        obtain ⟨⟨rfl, rfl⟩, rfl⟩ := h
        exact isPauseTag_of_readPause? hread
      · simp at h
  · simp at h

/-! ## Reading loses nothing -/

/-- The tokens of a text spell it with the pause tags that are met in it. -/
theorem spells_tokenize (s : Text) : Spells (tokenize s) (pauseTags s) s := by
  induction hn : s.length using Nat.strong_induction_on generalizing s with
  | _ n ih =>
    subst hn
    cases h : nextPiece? s with
    | none =>
      obtain rfl := nextPiece?_eq_none_iff.1 h
      simpa using Spells.nil
    | some found =>
      obtain ⟨p, rest⟩ := found
      -- what comes behind a piece is shorter than the text, and so is what is in a region
      have hrest := ih _ (length_rest_lt h) rest rfl
      rw [tokenize_eq_cons h, pauseTags_eq_append h, ← nextPiece?_source h]
      cases p with
      | plain value => exact .text hrest
      | opening tag => exact .scopeStart hrest
      | closing tag => exact .scopeEnd hrest
      | pause inside millis =>
        obtain ⟨hin, htag⟩ := isPauseTag_of_nextPiece? h
        exact .pause hin htag hrest
      | region body => exact .delete (ih _ (length_body_lt h) body rfl) hrest
      | strayDelete => exact .text hrest
      | strayPause => exact .text hrest

/-! ## Writing the tokens again -/

/-- Two texts without a mark, each followed by the mark, are the same if what follows makes them
so. -/
theorem append_mark_inj {mark : Char} {a b x y : Text} (ha : mark ∉ a) (hb : mark ∉ b)
    (h : a ++ mark :: x = b ++ mark :: y) : a = b ∧ x = y := by
  induction a generalizing b with
  | nil =>
    cases b with
    | nil => exact ⟨rfl, (List.cons.inj h).2⟩
    | cons c b => exact absurd (List.cons.inj h).1 fun hc => hb (hc ▸ List.mem_cons_self)
  | cons c a ih =>
    cases b with
    | nil => exact absurd (List.cons.inj h).1 fun hc => ha (hc ▸ List.mem_cons_self)
    | cons d b =>
      obtain ⟨rfl, hrest⟩ := List.cons.inj h
      obtain ⟨rfl, rfl⟩ := ih (fun hm => ha (List.mem_cons_of_mem _ hm))
        (fun hm => hb (List.mem_cons_of_mem _ hm)) hrest
      exact ⟨rfl, rfl⟩

/-- If tokens written again are the beginning of a text whose beginning they spell, then each pause
tag was canonical, and what is left over on both sides is the same. -/
theorem Spells.canonical_of_markups_append {ts : List Token} {tags : List Text} {s x y : Text}
    (hs : Spells ts tags s) (h : markups ts ++ x = s ++ y) :
    (∀ tag ∈ tags, ∃ millis, tag = pauseTag millis) ∧ x = y := by
  induction hs generalizing x y with
  | nil => exact ⟨by simp, h⟩
  | text _ ih | scopeStart _ ih | scopeEnd _ ih =>
    rw [markups, markup, List.append_assoc, List.append_assoc] at h
    exact ih (List.append_cancel_left h)
  | @pause millis inside ts tags s hin htag _ ih =>
    rw [markups, markup, pauseTag_eq] at h
    simp only [List.append_assoc, List.append_cancel_left_eq, List.singleton_append] at h
    obtain ⟨hcanonical, hrest⟩ := append_mark_inj (not_mem_canonicalInside millis) hin h
    obtain ⟨htags, hxy⟩ := ih hrest
    refine ⟨?_, hxy⟩
    rintro tag (_ | ⟨_, hmem⟩)
    · exact ⟨millis, by rw [pauseTag_eq, hcanonical]⟩
    · exact htags tag hmem
  | delete _ _ ihin ih =>
    rw [markups, markup] at h
    simp only [List.append_assoc, List.append_cancel_left_eq] at h
    obtain ⟨hin, hrest⟩ := ihin h
    obtain ⟨htags, hxy⟩ := ih (List.append_cancel_left hrest)
    refine ⟨fun tag hmem => ?_, hxy⟩
    obtain hmem | hmem := List.mem_append.1 hmem
    · exact hin tag hmem
    · exact htags tag hmem

/-- If each pause tag was canonical, the tokens written again are the text that they spell. -/
theorem Spells.markups_eq {ts : List Token} {tags : List Text} {s : Text} (hs : Spells ts tags s)
    (h : ∀ tag ∈ tags, ∃ millis, tag = pauseTag millis) : markups ts = s := by
  induction hs with
  | nil => rfl
  | text _ ih | scopeStart _ ih | scopeEnd _ ih => rw [markups, markup, ih h]
  | @pause millis inside ts tags s hin htag _ ih =>
    obtain ⟨written, hwritten⟩ := h _ List.mem_cons_self
    obtain rfl := isPauseTag_pauseTag_iff.1 (hwritten ▸ htag)
    rw [markups, markup, ← hwritten, ih fun tag hmem => h tag (List.mem_cons_of_mem _ hmem)]
  | delete _ _ ihin ih =>
    rw [markups, markup, ihin fun tag hmem => h tag (List.mem_append_left _ hmem),
      ih fun tag hmem => h tag (List.mem_append_right _ hmem)]

/-- **Reading markup loses nothing and makes nothing up.** The tokens of a text spell it, stretch by
stretch and at every depth; and written as markup again they give back the text exactly if every
pause tag that was met in it is a canonical one. -/
theorem tokenize_spells (s : Text) :
    Spells (tokenize s) (pauseTags s) s ∧
      (markups (tokenize s) = s ↔ ∀ tag ∈ pauseTags s, ∃ millis, tag = pauseTag millis) := by
  have hs := spells_tokenize s
  refine ⟨hs, fun h => ?_, hs.markups_eq⟩
  exact (hs.canonical_of_markups_append (x := []) (y := []) (by rw [h])).1

end Typist
