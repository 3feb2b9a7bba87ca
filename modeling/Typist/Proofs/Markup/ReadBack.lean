import Typist.Proofs.Markup.Reads

/-!
# Reading back what was written

Tokens can be written as a markup text, and not all of them are what is read back: a text token may
contain a tag, or stand next to another one. Tokens without such texts are read back as they are,
however deep their regions nest.

* `Writable` — tokens whose texts, at every depth, are not empty, have no tag in them and do not
  stand side by side;
* `Writable.reads` — written down, they read as themselves: every region is balanced, so that it
  ends where it was closed, and no tag arises where two tokens meet;
* `tokenize_markups` — reading undoes writing.
-/

namespace Typist

open Token

/-- The texts that mean something in markup. -/
def reserved : List Text :=
  [deleteOpen, deleteClose, pauseOpen] ++ Tag.all.map Tag.opening ++ Tag.all.map Tag.closing

/-- Whether a token is a text. -/
def Token.isText : Token → Bool
  | .text _ => true
  | _ => false

/-- Tokens whose texts, at every depth, are not empty and have no reserved text in them, and of which
no two texts stand side by side. -/
inductive Writable : List Token → Prop
  | nil : Writable []
  | text {value ts} (hne : value ≠ []) (hclear : ∀ tag ∈ reserved, ¬tag <:+: value)
      (halone : ∀ t ∈ ts.head?, ¬t.isText) (next : Writable ts) : Writable (.text value :: ts)
  | pause {millis ts} (next : Writable ts) : Writable (.pause millis :: ts)
  | scopeStart {tag ts} (next : Writable ts) : Writable (.scopeStart tag :: ts)
  | scopeEnd {tag ts} (next : Writable ts) : Writable (.scopeEnd tag :: ts)
  | delete {inner ts} (inside : Writable inner) (next : Writable ts) :
      Writable (.delete inner :: ts)

/-- Whether a pause tag is spelled as pauses are written. -/
def Canonical (tag : Text) : Prop :=
  ∃ millis, tag = pauseTag millis

/-! ## The tags in what is written -/

theorem deleteTags_opening (tag : Tag) : deleteTags tag.opening = [] := by
  cases tag <;> decide

theorem deleteTags_closing (tag : Tag) : deleteTags tag.closing = [] := by
  cases tag <;> decide

theorem deleteTags_pauseOpen_append (s : Text) : deleteTags (pauseOpen ++ s) = deleteTags s := by
  have hpause : pauseOpen = '<' :: "pause".toList := by decide
  have htag : deleteTag? (pauseOpen ++ s) = none := by
    simp [deleteTag?, hpause, deleteOpen_eq, deleteClose_eq, List.isPrefixOf]
  have hname : deleteTags ("pause".toList ++ s) = deleteTags s := by
    simp [deleteTags_cons_of_ne]
  rw [hpause, List.cons_append] at htag ⊢
  rw [deleteTags, htag, hname]
  rfl

/-- The tag of a pause has no tag of a region in it. -/
theorem deleteTags_pauseTag (millis : UInt64) : deleteTags (pauseTag millis) = [] := by
  have hinside : '<' ∉ canonicalInside millis ++ ['>'] := by
    have hdigit : '<' ∉ decimal millis.toNat := fun h =>
      absurd (isDigit_of_mem_decimal h) (by decide)
    simp [canonicalInside, hdigit]
  rw [pauseTag_eq, List.append_assoc, deleteTags_pauseOpen_append, deleteTags_eq_nil hinside]

theorem getLast?_opening (tag : Tag) : tag.opening.getLast? = some '>' := by
  cases tag <;> decide

theorem getLast?_closing (tag : Tag) : tag.closing.getLast? = some '>' := by
  cases tag <;> decide

theorem getLast?_pauseTag (millis : UInt64) : (pauseTag millis).getLast? = some '>' := by
  rw [pauseTag_eq]
  exact List.getLast?_concat

/-- The delete tags around a region, and those in it. -/
theorem deleteTags_region (body rest : Text) :
    deleteTags (deleteOpen ++ body ++ deleteClose ++ rest) =
      .opening :: (deleteTags body ++ .closing :: deleteTags rest) := by
  have hbody : Apart body (deleteClose ++ rest) := apart_of_head rfl
  rw [List.append_assoc, List.append_assoc, deleteTags_append_of_getLast (by decide),
    hbody.deleteTags_append, deleteTags_append_of_getLast (by decide), deleteTags_deleteOpen,
    deleteTags_deleteClose]
  rfl

/-! ## Reading undoes writing -/

/-- A text without a reserved one has no marker. -/
theorem isPlain_of_reserved {value : Text} (h : ∀ tag ∈ reserved, ¬tag <:+: value) :
    IsPlain value := by
  intro m
  refine h m.text ?_
  cases m with
  | delete | pause => decide
  | opening tag | closing tag => cases tag <;> decide

/-- A text that no reserved tag occurs in has no tag of a region in it. -/
theorem deleteTags_of_reserved {value : Text} (h : ∀ tag ∈ reserved, ¬tag <:+: value) :
    deleteTags value = [] := by
  refine List.eq_nil_iff_forall_not_mem.2 fun tag hmem => ?_
  have hin := infix_of_mem_deleteTags hmem
  cases tag with
  | opening => exact h deleteOpen (by decide) hin
  | closing => exact h deleteClose (by decide) hin

/-- What is written for tokens that do not begin with a text begins with a marker. -/
theorem atMarker_markups {ts : List Token} (h : ∀ u ∈ ts.head?, ¬u.isText) :
    AtMarker (markups ts) := by
  cases ts with
  | nil => exact atMarker_nil
  | cons t ts =>
    cases t with
    | text value => exact absurd rfl (h _ rfl)
    | pause millis =>
      rw [markups, markup, pauseTag_eq, List.append_assoc, List.append_assoc]
      exact atMarker_text .pause _
    | scopeStart tag => exact atMarker_text (.opening tag) _
    | scopeEnd tag => exact atMarker_text (.closing tag) _
    | delete inner =>
      rw [markups, markup, List.append_assoc, List.append_assoc]
      exact atMarker_text .delete _

/-- Written down, such tokens close at every depth just what they open. -/
theorem Writable.nesting?_markups {ts : List Token} (h : Writable ts) (depth : Nat) :
    nesting? depth (deleteTags (markups ts)) = some depth := by
  induction h generalizing depth with
  | nil => rfl
  | text _ hclear halone _ ih =>
    rw [markups, markup, (atMarker_markups halone).deleteTags_append, deleteTags_of_reserved hclear]
    exact ih depth
  | pause _ ih =>
    rw [markups, markup, deleteTags_append_of_getLast (getLast?_pauseTag _),
      deleteTags_pauseTag]
    exact ih depth
  | scopeStart _ ih =>
    rw [markups, markup, deleteTags_append_of_getLast (getLast?_opening _),
      deleteTags_opening]
    exact ih depth
  | scopeEnd _ ih =>
    rw [markups, markup, deleteTags_append_of_getLast (getLast?_closing _),
      deleteTags_closing]
    exact ih depth
  | delete _ _ ihin ih =>
    rw [markups, markup, deleteTags_region, nesting?, nesting?_append, ihin]
    exact ih depth

/-- **Written down, such tokens read as themselves.** -/
theorem Writable.reads {ts : List Token} (h : Writable ts) : Reads Canonical (markups ts) ts := by
  induction h with
  | nil => exact .nil
  | text hne hclear halone _ ih =>
    exact .plain hne (isPlain_of_reserved hclear) (atMarker_markups halone) ih
  | @pause millis ts _ ih =>
    have hpause := pauseTag_eq millis
    rw [markups, markup, hpause]
    exact .pause (not_mem_canonicalInside millis) (pauseDuration?_canonicalInside millis)
      ⟨millis, hpause.symm⟩ ih
  | scopeStart _ ih => exact .scopeStart ih
  | scopeEnd _ ih => exact .scopeEnd ih
  | delete inside _ ihin ih => exact .delete (.inl (inside.nesting?_markups 0)) ihin ih

/-- **Reading undoes writing.** Tokens whose texts are not empty, have no reserved text in them and
do not stand side by side, at every depth, are read back from their markup. -/
theorem tokenize_markups {ts : List Token} (h : Writable ts) : tokenize (markups ts) = ts :=
  h.reads.tokenize_eq

/-- A region in a region, the longest pause, a scope closed that is not open, and brackets that are no
tags. -/
theorem tokenize_markups_nested :
    let ts : List Token := [.text "a < b".toList,
      .delete [.scopeEnd .gray, .text "</pause>".toList, .delete [.pause 18446744073709551615]],
      .text "<".toList, .scopeStart .bold]
    tokenize (markups ts) = ts :=
  tokenize_markups
    (.text (by decide) (by decide +kernel) (by simp [isText])
      (.delete
        (.scopeEnd (.text (by decide) (by decide +kernel) (by simp [isText])
          (.delete (.pause .nil) .nil)))
        (.text (by decide) (by decide +kernel) (by simp [isText]) (.scopeStart .nil))))

end Typist
