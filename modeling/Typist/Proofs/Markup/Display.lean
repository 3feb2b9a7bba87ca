import Typist.Markup.Display
import Typist.Proofs.Text.Quoted

/-!
# Listings are unambiguous

In a listing the spaces, brackets and quotes of the display form may also stand in the texts that are
listed, and regions hold listings of their own. Yet a listing tells its tokens: the display form of a
token says by its first letter of which kind the token is, and from there on where it ends, whatever comes
behind it. What comes behind a row of tokens does not look like one more token.

* `Token.display_append_inj` — a token at the beginning of a longer text;
* `Token.displays_append_inj` — a row of tokens up to the end of the text or of a region;
* `Token.displays_inj` — a listing, at the top or in a region.
-/

namespace Typist

/-- No two tags have one name. -/
theorem Tag.name_injective {t u : Tag} (h : t.name = u.name) : t = u := by
  have hread := congrArg ofName? h
  rw [ofName?_name, ofName?_name] at hread
  exact Option.some.inj hread

/-- A name ends at the first bracket. -/
theorem Tag.name_append_inj {t u : Tag} {x y : Text} (h : t.name ++ ')' :: x = u.name ++ ')' :: y) :
    t = u ∧ x = y := by
  have hend (t : Tag) : ')' ∉ t.name := by cases t <;> decide
  obtain ⟨hname, hrest⟩ := Text.append_cons_inj (hend t) (hend u) h
  exact ⟨name_injective hname, hrest⟩

/-- A number ends at the first letter. -/
theorem decimal_append_inj {n m : UInt64} {x y : Text}
    (h : decimal n.toNat ++ 'm' :: x = decimal m.toNat ++ 'm' :: y) : n = m ∧ x = y := by
  have hend (k : Nat) : 'm' ∉ decimal k := fun hmem => absurd (isDigit_of_mem_decimal hmem) (by decide)
  obtain ⟨hdigits, hrest⟩ := Text.append_cons_inj (hend _) (hend _) h
  have hread := congrArg decimalValue hdigits
  rw [decimalValue_decimal, decimalValue_decimal] at hread
  exact ⟨UInt64.toNat_inj.1 hread, hrest⟩

namespace Token

/-! ## The first letter -/

/-- The first letter of a display form, which tells the kind of the token. -/
def initial : Token → Char
  | .text _ => 'T'
  | .pause _ => 'P'
  | .scopeStart _ => 'S'
  | .scopeEnd _ => 'E'
  | .delete _ => 'D'

/-- Every display form begins with the letter of its kind. -/
theorem exists_display_eq_cons (t : Token) : ∃ s, t.display = t.initial :: s := by
  cases t with
  | text | pause | scopeStart | scopeEnd | delete => exact ⟨_, rfl⟩

/-- Two tokens at the beginning of one text are of one kind. -/
theorem initial_eq {t u : Token} {x y : Text} (h : t.display ++ x = u.display ++ y) :
    t.initial = u.initial := by
  obtain ⟨s, hs⟩ := t.exists_display_eq_cons
  obtain ⟨s', hs'⟩ := u.exists_display_eq_cons
  rw [hs, hs'] at h
  exact (List.cons.inj h).1

/-- What may come behind a row of tokens: nothing, or the end of the region that they are in. -/
def Ends (x : Text) : Prop := ∀ c ∈ x.head?, c = ']'

theorem ends_nil : Ends [] := nofun

theorem ends_bracket (x : Text) : Ends (']' :: x) := fun _ h => (Option.some.inj h).symm

/-- Where another token comes, a row has not ended. -/
theorem not_ends_display (t : Token) (x : Text) : ¬Ends (t.display ++ x) := by
  intro h
  obtain ⟨s, hs⟩ := t.exists_display_eq_cons
  have hbracket : t.initial = ']' := h _ (by rw [hs]; rfl)
  cases t <;> cases hbracket

/-! ## Where a token and a row of tokens end -/

mutual

/-- Two tokens at the beginning of one text are the same, and end there alike. -/
theorem display_append_inj {t u : Token} {x y : Text} (h : t.display ++ x = u.display ++ y) :
    t = u ∧ x = y := by
  have hkind := initial_eq h
  cases t with
  | text value =>
    cases u with
    | text value' =>
      have hvalue : quoted value ++ ')' :: x = quoted value' ++ ')' :: y := by
        simpa [display_text] using h
      obtain ⟨rfl, hrest⟩ := quoted_append_inj hvalue
      exact ⟨rfl, (List.cons.inj hrest).2⟩
    | pause | scopeStart | scopeEnd | delete => cases hkind
  | pause millis =>
    cases u with
    | pause millis' =>
      have hmillis : decimal millis.toNat ++ 'm' :: 's' :: ')' :: x =
          decimal millis'.toNat ++ 'm' :: 's' :: ')' :: y := by simpa [display_pause] using h
      obtain ⟨rfl, hrest⟩ := decimal_append_inj hmillis
      exact ⟨rfl, (List.cons.inj (List.cons.inj hrest).2).2⟩
    | text | scopeStart | scopeEnd | delete => cases hkind
  | scopeStart tag =>
    cases u with
    | scopeStart tag' =>
      have htag : tag.name ++ ')' :: x = tag'.name ++ ')' :: y := by
        simpa [display_scopeStart] using h
      obtain ⟨rfl, hrest⟩ := Tag.name_append_inj htag
      exact ⟨rfl, hrest⟩
    | text | pause | scopeEnd | delete => cases hkind
  | scopeEnd tag =>
    cases u with
    | scopeEnd tag' =>
      have htag : tag.name ++ ')' :: x = tag'.name ++ ')' :: y := by
        simpa [display_scopeEnd] using h
      obtain ⟨rfl, hrest⟩ := Tag.name_append_inj htag
      exact ⟨rfl, hrest⟩
    | text | pause | scopeStart | delete => cases hkind
  | delete inner =>
    cases u with
    | delete inner' =>
      have hinner : displays inner ++ ']' :: x = displays inner' ++ ']' :: y := by
        simpa [display_delete] using h
      obtain ⟨rfl, hrest⟩ := displays_append_inj (ends_bracket x) (ends_bracket y) hinner
      exact ⟨rfl, (List.cons.inj hrest).2⟩
    | text | pause | scopeStart | scopeEnd => cases hkind

/-- Two rows of tokens at the beginning of one text are the same, if both end there. -/
theorem displays_append_inj {ts us : List Token} {x y : Text} (hx : Ends x) (hy : Ends y)
    (h : displays ts ++ x = displays us ++ y) : ts = us ∧ x = y := by
  cases ts with
  | nil =>
    cases us with
    | nil => exact ⟨rfl, h⟩
    | cons u us =>
      rw [displays_nil, List.nil_append, displays_cons, List.append_assoc] at h
      rw [h] at hx
      exact absurd hx (not_ends_display u _)
  | cons t ts =>
    rw [displays_cons, List.append_assoc] at h
    cases us with
    | nil =>
      rw [displays_nil, List.nil_append] at h
      rw [← h] at hy
      exact absurd hy (not_ends_display t _)
    | cons u us =>
      rw [displays_cons, List.append_assoc] at h
      obtain ⟨rfl, hrest⟩ := display_append_inj h
      obtain ⟨rfl, hend⟩ := spaced_append_inj hx hy hrest
      exact ⟨rfl, hend⟩

/-- What comes behind the first token of a row is the other ones, each behind a space. -/
theorem spaced_append_inj {ts us : List Token} {x y : Text} (hx : Ends x) (hy : Ends y)
    (h : (ts.flatMap fun t => ' ' :: t.display) ++ x = (us.flatMap fun u => ' ' :: u.display) ++ y) :
    ts = us ∧ x = y := by
  have hspace {z : Text} : ¬Ends (' ' :: z) := fun h => absurd (h _ rfl) (by decide)
  cases ts with
  | nil =>
    cases us with
    | nil => exact ⟨rfl, h⟩
    | cons u us =>
      rw [List.flatMap_nil, List.nil_append, List.flatMap_cons] at h
      rw [h] at hx
      exact absurd hx hspace
  | cons t ts =>
    cases us with
    | nil =>
      rw [List.flatMap_nil, List.nil_append, List.flatMap_cons] at h
      rw [← h] at hy
      exact absurd hy hspace
    | cons u us =>
      rw [List.flatMap_cons, List.flatMap_cons, List.append_assoc, List.append_assoc] at h
      obtain ⟨rfl, hrest⟩ := display_append_inj (List.cons.inj h).2
      obtain ⟨rfl, hend⟩ := spaced_append_inj hx hy hrest
      exact ⟨rfl, hend⟩

end

/-- **Listings are unambiguous**: two lists of tokens, with regions in them to any depth, are the same if
their display forms in a row are. -/
theorem displays_inj {ts us : List Token} : displays ts = displays us ↔ ts = us := by
  constructor
  · intro h
    exact (displays_append_inj ends_nil ends_nil (congrArg (· ++ []) h)).1
  · exact congrArg displays

end Token

end Typist
