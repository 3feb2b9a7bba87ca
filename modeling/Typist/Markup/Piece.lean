import Typist.Markup.Pause
import Typist.Markup.Region

/-!
# Pieces of markup

Markup is read from left to right, piece by piece. A piece is a stretch of plain text, or what the
first marker that stands there amounts to.

* The markers are `<delete>`, `<pause`, and the opening and closing tags of the three scopes.
  They are distinct, and none is the beginning of another, so at most one stands at a place.
* A `<delete>` takes its whole region with it (`Region`); without a `</delete>` it is plain text.
* A `<pause` that starts a pause tag takes the tag with it (`Pause`); otherwise its `<` alone is
  plain text, and reading goes on behind the `<`.

`nextPiece?` gives the first piece of a text and what follows it. `nextPiece?_source` says that
the source of the piece and the rest are the text again, and `length_rest_lt`, `length_body_lt` that
both what follows a piece and the body of a region are shorter than the text.
-/

namespace Typist

open Token

/-- The texts at which plain text stops. -/
inductive Marker where
  /-- the start of a delete region -/
  | delete
  /-- the start of a pause tag -/
  | pause
  /-- a tag that opens a scope -/
  | opening (tag : Tag)
  /-- a tag that closes a scope -/
  | closing (tag : Tag)
  deriving DecidableEq, Repr

namespace Marker

/-- How a marker is written. -/
def text : Marker → Text
  | .delete => deleteOpen
  | .pause => pauseOpen
  | .opening tag => tag.opening
  | .closing tag => tag.closing

/-- All markers. -/
def all : List Marker :=
  [.delete, .pause] ++ Tag.all.map .opening ++ Tag.all.map .closing

theorem mem_all (m : Marker) : m ∈ all := by
  cases m with
  | delete | pause => decide
  | opening tag | closing tag => cases tag <;> decide

theorem text_ne_nil (m : Marker) : m.text ≠ [] := by
  cases m with
  | delete | pause => decide
  | opening tag | closing tag => cases tag <;> decide

/-- The marker that a text starts with, and what follows it. -/
def leading? (s : Text) : Option (Marker × Text) :=
  all.findSome? fun m => (m.text.after? s).map (m, ·)

theorem leading?_source {s rest : Text} {m : Marker} (h : leading? s = some (m, rest)) :
    s = m.text ++ rest := by
  obtain ⟨m', -, hm'⟩ := List.exists_of_findSome?_eq_some h
  obtain ⟨r, hr, heq⟩ := Option.map_eq_some_iff.1 hm'
  obtain ⟨rfl, rfl⟩ := Prod.mk.inj heq
  exact Text.after?_eq_some_iff.1 hr

end Marker

/-- The plain text before the first marker of a text, and that marker with what follows it. -/
def untilMarker : Text → Text × Option (Marker × Text)
  | [] => ([], none)
  | c :: cs =>
    match Marker.leading? (c :: cs) with
    | some found => ([], some found)
    | none => (c :: (untilMarker cs).1, (untilMarker cs).2)

/-- What the end of the plain text leaves over. -/
def fromMarker : Option (Marker × Text) → Text
  | none => []
  | some (m, rest) => m.text ++ rest

theorem untilMarker_source (s : Text) : (untilMarker s).1 ++ fromMarker (untilMarker s).2 = s := by
  fun_induction untilMarker s with
  | case1 => rfl
  | case2 c cs found h => simpa [fromMarker] using (Marker.leading?_source h).symm
  | case3 c cs h ih => simpa using ih

/-- A stretch of markup that is read as one. -/
inductive Piece where
  /-- text without a marker -/
  | plain (value : Text)
  /-- a tag that opens a scope -/
  | opening (tag : Tag)
  /-- a tag that closes a scope -/
  | closing (tag : Tag)
  /-- a pause tag: what stands between `<pause` and `>`, and its duration -/
  | pause (inside : Text) (millis : UInt64)
  /-- a delete region with the markup inside it -/
  | region (body : Text)
  /-- a `<delete>` that nothing closes -/
  | strayDelete
  /-- the `<` of a `<pause` that starts no pause tag -/
  | strayPause
  deriving DecidableEq, Repr

/-- The markup that a piece was read from. -/
def Piece.source : Piece → Text
  | .plain value => value
  | .opening tag => tag.opening
  | .closing tag => tag.closing
  | .pause inside _ => pauseOpen ++ inside ++ ['>']
  | .region body => deleteOpen ++ body ++ deleteClose
  | .strayDelete => deleteOpen
  | .strayPause => ['<']

/-- The piece that a marker starts, and what follows it; `rest` stands behind the marker. -/
def Marker.piece (m : Marker) (rest : Text) : Piece × Text :=
  match m with
  | .opening tag => (.opening tag, rest)
  | .closing tag => (.closing tag, rest)
  | .pause =>
    match readPause? rest with
    | some (inside, millis, rest) => (.pause inside millis, rest)
    | none => (.strayPause, pauseOpen.tail ++ rest)
  | .delete =>
    match regionLength? rest with
    | some n => (.region (rest.take n), rest.drop (n + deleteClose.length))
    | none => (.strayDelete, rest)

/-- The first piece of a text and what follows it; nothing for the empty text. -/
def nextPiece? (s : Text) : Option (Piece × Text) :=
  match untilMarker s with
  | ([], none) => none
  | ([], some (m, rest)) => some (m.piece rest)
  | (c :: cs, found) => some (.plain (c :: cs), fromMarker found)

/-- The piece that a marker starts loses nothing. -/
theorem Marker.piece_source (m : Marker) (rest : Text) :
    (m.piece rest).1.source ++ (m.piece rest).2 = m.text ++ rest := by
  cases m with
  | opening tag | closing tag => rfl
  | pause =>
    simp only [Marker.piece]
    split
    · rename_i h
      simp [Piece.source, Marker.text, readPause?_source h]
    · rfl
  | delete =>
    simp only [Marker.piece]
    split
    · rename_i n h
      have := deleteClose_at_regionLength? h
      simp only [Piece.source, Marker.text, List.append_assoc] at this ⊢
      rw [← this]
    · rfl

/-- The source of the first piece and the rest make up the text. -/
theorem nextPiece?_source {s rest : Text} {p : Piece} (h : nextPiece? s = some (p, rest)) :
    p.source ++ rest = s := by
  have key := untilMarker_source s
  unfold nextPiece? at h
  split at h
  · simp at h
  · rename_i m r heq
    rw [heq] at key
    have hm := m.piece_source r
    rw [Option.some.inj h] at hm
    rw [hm]
    simpa [fromMarker] using key
  · rename_i c cs found heq
    rw [heq] at key
    obtain ⟨rfl, rfl⟩ := Prod.mk.inj (Option.some.inj h)
    simpa [Piece.source] using key

theorem deleteOpen_ne_nil : deleteOpen ≠ [] :=
  Marker.text_ne_nil .delete

/-- What a marker starts is not empty. -/
theorem Marker.source_ne_nil (m : Marker) (rest : Text) : (m.piece rest).1.source ≠ [] := by
  cases m with
  | opening tag => exact Marker.text_ne_nil (.opening tag)
  | closing tag => exact Marker.text_ne_nil (.closing tag)
  | pause =>
    simp only [Marker.piece]
    split
    · exact List.append_ne_nil_of_right_ne_nil _ (List.cons_ne_nil _ _)
    · exact List.cons_ne_nil _ _
  | delete =>
    simp only [Marker.piece]
    split
    · exact List.append_ne_nil_of_left_ne_nil (List.append_ne_nil_of_left_ne_nil deleteOpen_ne_nil _) _
    · exact deleteOpen_ne_nil

/-- No piece is empty. -/
theorem nextPiece?_ne_nil {s rest : Text} {p : Piece} (h : nextPiece? s = some (p, rest)) :
    p.source ≠ [] := by
  unfold nextPiece? at h
  split at h
  · simp at h
  · rename_i m r _
    have hm := m.source_ne_nil r
    rwa [Option.some.inj h] at hm
  · obtain ⟨rfl, -⟩ := Prod.mk.inj (Option.some.inj h)
    simp [Piece.source]

/-- Only the empty text has no first piece. -/
theorem nextPiece?_eq_none_iff {s : Text} : nextPiece? s = none ↔ s = [] := by
  have key := untilMarker_source s
  constructor
  · intro h
    unfold nextPiece? at h
    split at h
    · rename_i heq
      rw [heq] at key
      exact key.symm
    · simp at h
    · simp at h
  · rintro rfl
    rfl

/-- What follows a piece is shorter. -/
theorem length_rest_lt {s rest : Text} {p : Piece} (h : nextPiece? s = some (p, rest)) :
    rest.length < s.length := by
  have hs := congrArg List.length (nextPiece?_source h)
  have hp := List.length_pos_iff.2 (nextPiece?_ne_nil h)
  rw [List.length_append] at hs
  omega

/-- The body of a region is shorter than the text that starts with the region. -/
theorem length_body_lt {s rest body : Text} (h : nextPiece? s = some (.region body, rest)) :
    body.length < s.length := by
  have hs := congrArg List.length (nextPiece?_source h)
  have hd : 0 < deleteOpen.length := by decide
  simp only [Piece.source, List.length_append] at hs
  omega

end Typist
