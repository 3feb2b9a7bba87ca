import Typist.Proofs.Markup.Reads

/-!
# Where the tokens of a text stand

Each token of a text has its place there: what the tokens in front of it spell, its own stretch, and
what those behind it spell. The place is the only one. What the reader leaves as text has no markup
in it that could have been read at that place: no scope tag and no `<pause`, a `<delete>` only where
nothing behind it closes a region, and the `<` of a `<pause` only where no pause tag stands. The same
holds in the bodies of regions, each of which is a text with tokens and places of its own.

* `Spells.unique` — tokens spell one beginning of a text at most;
* `Stands` — the place of a token, and `Part`, the texts that are read when a text is;
* `IsLeftover` — what there is to be said of text that was left where it stands;
* `Reads.placed` — the places of the tokens that a text reads as;
* `tokenize_leftovers` — no markup that could be read is left as text.
-/

namespace Typist

open Token

/-! ## Places -/

theorem Spells.append {ts ts' : List Token} {tags tags' : List Text} {s s' : Text}
    (h : Spells ts tags s) (h' : Spells ts' tags' s') :
    Spells (ts ++ ts') (tags ++ tags') (s ++ s') := by
  induction h with
  | nil => exact h'
  | text _ ih | scopeStart _ ih | scopeEnd _ ih =>
    rw [List.append_assoc]
    constructor
    exact ih
  | @pause _ inside _ _ s hin htag _ ih =>
    rw [List.append_assoc (pauseOpen ++ inside ++ ['>']) s s']
    exact .pause hin htag ih
  | @delete _ _ body _ _ s hinside _ _ ih =>
    rw [List.append_assoc (deleteOpen ++ body ++ deleteClose) s s', List.append_assoc]
    exact .delete hinside ih

/-- **Tokens spell one beginning of a text at most**: of the stretches that they stand for only a
pause tag is not written in one way, and it ends at its first `>`. -/
theorem Spells.unique {ts : List Token} {tags tags' : List Text} {s s' x y : Text}
    (h : Spells ts tags s) (h' : Spells ts tags' s') (heq : s ++ x = s' ++ y) : s = s' ∧ x = y := by
  induction h generalizing tags' s' x y with
  | nil =>
    cases h'
    exact ⟨rfl, heq⟩
  | text _ ih =>
    cases h' with
    | text rest =>
      rw [List.append_assoc, List.append_assoc] at heq
      obtain ⟨rfl, rfl⟩ := ih rest (List.append_cancel_left heq)
      exact ⟨rfl, rfl⟩
  | scopeStart _ ih =>
    cases h' with
    | scopeStart rest =>
      rw [List.append_assoc, List.append_assoc] at heq
      obtain ⟨rfl, rfl⟩ := ih rest (List.append_cancel_left heq)
      exact ⟨rfl, rfl⟩
  | scopeEnd _ ih =>
    cases h' with
    | scopeEnd rest =>
      rw [List.append_assoc, List.append_assoc] at heq
      obtain ⟨rfl, rfl⟩ := ih rest (List.append_cancel_left heq)
      exact ⟨rfl, rfl⟩
  | pause hin _ _ ih =>
    cases h' with
    | pause hin' _ rest =>
      simp only [List.append_assoc, List.append_cancel_left_eq, List.singleton_append] at heq
      obtain ⟨rfl, hrest⟩ := append_mark_inj hin hin' heq
      obtain ⟨rfl, rfl⟩ := ih rest hrest
      exact ⟨rfl, rfl⟩
  | delete _ _ ihin ih =>
    cases h' with
    | delete inside rest =>
      simp only [List.append_assoc, List.append_cancel_left_eq] at heq
      obtain ⟨rfl, hrest⟩ := ihin inside heq
      obtain ⟨rfl, rfl⟩ := ih rest (List.append_cancel_left hrest)
      exact ⟨rfl, rfl⟩

/-- A token stands in a text between what the tokens in front of it spell and what those behind it
do. -/
structure Stands (u : Text) (before : List Token) (t : Token) (after : List Token)
    (front own back : Text) : Prop where
  source : u = front ++ own ++ back
  front : ∃ tags, Spells before tags front
  own : ∃ tags, Spells [t] tags own
  back : ∃ tags, Spells after tags back

/-- A token has one place. -/
theorem Stands.unique {u : Text} {before after : List Token} {t : Token}
    {front own back front' own' back' : Text} (h : Stands u before t after front own back)
    (h' : Stands u before t after front' own' back') :
    front' = front ∧ own' = own ∧ back' = back := by
  obtain ⟨_, hfront⟩ := h.front
  obtain ⟨_, hfront'⟩ := h'.front
  obtain ⟨_, hown⟩ := h.own
  obtain ⟨_, hown'⟩ := h'.own
  have heq := h'.source.symm.trans h.source
  rw [List.append_assoc, List.append_assoc] at heq
  obtain ⟨rfl, hrest⟩ := hfront'.unique hfront heq
  obtain ⟨rfl, rfl⟩ := hown'.unique hown hrest
  exact ⟨rfl, rfl, rfl⟩

/-- The texts that are read when `s` is, with their tokens: `s` itself, and the body of each region
among the tokens of such a text. -/
inductive Part (s : Text) : Text → List Token → Prop
  | whole : Part s s (tokenize s)
  | body {u before inner after front body back}
      (outer : Part s u (before ++ .delete inner :: after))
      (h : Stands u before (.delete inner) after front (deleteOpen ++ body ++ deleteClose) back) :
      Part s body inner

/-! ## Leftovers -/

/-- A value that was left as text in front of `back` holds nothing that could have been read there. -/
structure IsLeftover (value back : Text) : Prop where
  ne_nil : value ≠ []
  /-- no scope tag and no `<pause` is in it -/
  marker : ∀ m : Marker, m ≠ .delete → ¬m.text <:+: value
  /-- a `<delete>` is in it only alone, and where no `</delete>` is behind it -/
  delete : deleteOpen <:+: value → value = deleteOpen ∧ ¬deleteClose <:+: back
  /-- it is the `<` of a `<pause` only where no pause tag stands -/
  pause : value = ['<'] → "pause".toList <+: back →
    ∀ p : PauseReading, ¬p.source <+: value ++ back

/-- Plain text up to a marker is a leftover: a `<` that ends it has no `pause` behind it. -/
theorem IsPlain.isLeftover {value back : Text} (h : IsPlain value) (hne : value ≠ [])
    (hback : AtMarker back) : IsLeftover value back where
  ne_nil := hne
  marker m _ := h m
  delete hmem := absurd hmem (h .delete)
  pause _ hpause := by
    obtain ⟨rest, rfl⟩ := hpause
    obtain hnil | hhead := hback.head?
    · cases hnil
    · cases hhead

/-- No other marker is in `<delete>`. -/
theorem eq_delete_of_mem_deleteOpen {m : Marker} (h : m.text <:+: deleteOpen) : m = .delete := by
  have key : ∀ m ∈ Marker.all, m.text <:+: deleteOpen → m = .delete := by decide +kernel
  exact key m m.mem_all h

/-- A `</delete>` somewhere in a text is among its delete tags. -/
theorem closing_mem_deleteTags {s : Text} (h : deleteClose <:+: s) : .closing ∈ deleteTags s := by
  obtain ⟨front, back, rfl⟩ := h
  have hapart : Apart front (deleteClose ++ back) := apart_of_head rfl
  rw [List.append_assoc, hapart.deleteTags_append, deleteTags_append_of_getLast (by decide),
    deleteTags_deleteClose]
  exact List.mem_append_right _ List.mem_cons_self

theorem isLeftover_deleteOpen {back : Text} (h : .closing ∉ deleteTags back) :
    IsLeftover deleteOpen back where
  ne_nil := deleteOpen_ne_nil
  marker _ hm hmem := hm (eq_delete_of_mem_deleteOpen hmem)
  delete _ := ⟨rfl, fun hmem => h (closing_mem_deleteTags hmem)⟩
  pause heq := absurd heq (by decide)

/-- Where the reader finds no pause tag, the pattern does not fit. -/
theorem not_source_prefix {s : Text} (h : readPause? s = none) (p : PauseReading) :
    ¬p.source <+: pauseOpen ++ s := by
  rintro ⟨rest, hrest⟩
  have hs : s = p.inside ++ '>' :: rest := by
    rw [PauseReading.source] at hrest
    simpa only [List.append_assoc, List.append_cancel_left_eq, List.singleton_append] using hrest.symm
  have hread := readPause?_append p.not_mem_inside rest
  rw [← hs, h] at hread
  have hnone : pauseDuration? p.inside = none := Option.map_eq_none_iff.1 hread.symm
  -- but the reader would have found the attribute of the reading
  obtain ⟨more, hat⟩ := p.attributeBehind
  cases hds : lastDuration? 'e' p.inside with
  | none => exact lastDuration?_eq_none hds _ _ hat
  | some ds =>
    have hname : ∀ c ∈ p.inside.head?, isWordChar c = false := p.head?_inside ▸ p.name_ends
    have hsome := pauseDuration?_eq_some_iff.2 ⟨hname, ds, hds, rfl⟩
    rw [hnone] at hsome
    cases hsome

/-- A marker is longer than its `<`. -/
theorem not_infix_lessThan (m : Marker) : ¬m.text <:+: ['<'] := by
  have key : ∀ m ∈ Marker.all, ¬m.text <:+: ['<'] := by decide +kernel
  exact key m m.mem_all

theorem isLeftover_lessThan {s : Text} (h : readPause? s = none) :
    IsLeftover ['<'] (pauseOpen.tail ++ s) where
  ne_nil := List.cons_ne_nil _ _
  marker m _ := not_infix_lessThan m
  delete hmem := absurd hmem (not_infix_lessThan .delete)
  pause _ _ p := not_source_prefix h p

/-! ## The places of what is read -/

/-- What there is to be said of a token where it stands. -/
def Token.Fits (t : Token) (own back : Text) : Prop :=
  match t with
  | .text value => IsLeftover value back
  | .delete inner => ∃ body, own = deleteOpen ++ body ++ deleteClose ∧ tokenize body = inner
  | _ => True

/-- Each of these tokens has a place in this text, where it fits. -/
def Placed (u : Text) (ts : List Token) : Prop :=
  ∀ before t after, ts = before ++ t :: after →
    ∃ front own back, Stands u before t after front own back ∧ t.Fits own back

theorem placed_nil (u : Text) : Placed u [] := by
  intro before t after h
  exact absurd h.symm (List.append_ne_nil_of_right_ne_nil _ (List.cons_ne_nil t after))

/-- One more token in front. -/
theorem Placed.cons {u own : Text} {t : Token} {ts : List Token} {tags tags' : List Text}
    (h : Placed u ts) (hspells : Spells ts tags u) (hown : Spells [t] tags' own)
    (hfits : t.Fits own u) : Placed (own ++ u) (t :: ts) := by
  intro before t' after hts
  cases before with
  | nil =>
    obtain ⟨rfl, rfl⟩ := List.cons.inj hts
    exact ⟨[], own, u, ⟨rfl, ⟨[], .nil⟩, ⟨tags', hown⟩, ⟨tags, hspells⟩⟩, hfits⟩
  | cons first before =>
    obtain ⟨rfl, hrest⟩ := List.cons.inj hts
    obtain ⟨front, own', back, hstands, hfits'⟩ := h before t' after hrest
    obtain ⟨frontTags, hfront⟩ := hstands.front
    refine ⟨own ++ front, own', back, ⟨?_, ⟨tags' ++ frontTags, hown.append hfront⟩, hstands.own,
      hstands.back⟩, hfits'⟩
    rw [hstands.source, List.append_assoc, List.append_assoc, List.append_assoc]

/-- **Each token of a text has its place, and fits there.** -/
theorem Reads.placed {ok : Text → Prop} {u : Text} {ts : List Token} (h : Reads ok u ts) :
    Placed u ts := by
  have hspells {rest : Text} {ts : List Token} (hrest : Reads ok rest ts) :
      Spells ts (pauseTags rest) rest := hrest.tokenize_eq ▸ spells_tokenize rest
  have hone {value : Text} : Spells [.text value] [] value := by
    have hvalue : Spells [.text value] [] (value ++ []) := .text .nil
    rwa [List.append_nil] at hvalue
  induction h with
  | nil => exact placed_nil []
  | plain hne hplain hmark hrest ih =>
    exact ih.cons (hspells hrest) hone (hplain.isLeftover hne hmark)
  | @scopeStart tag rest ts hrest ih =>
    have hown : Spells [.scopeStart tag] [] (tag.opening ++ []) := .scopeStart .nil
    rw [List.append_nil] at hown
    exact ih.cons (hspells hrest) hown trivial
  | @scopeEnd tag rest ts hrest ih =>
    have hown : Spells [.scopeEnd tag] [] (tag.closing ++ []) := .scopeEnd .nil
    rw [List.append_nil] at hown
    exact ih.cons (hspells hrest) hown trivial
  | pause hin hmillis _ hrest ih =>
    have hown := Spells.pause hin ((isPauseTag_iff hin).2 hmillis) .nil
    rw [List.append_nil] at hown
    exact ih.cons (hspells hrest) hown trivial
  | @strayPause value rest ts hplain hmark hno hrest ih =>
    -- two tokens: the `<`, and what follows it up to the next marker
    have hplain' := hplain.behind_stray
    have hne := tail_pauseOpen_append_ne_nil value
    have hbehind : Reads ok (pauseOpen.tail ++ value ++ rest)
        (.text (pauseOpen.tail ++ value) :: ts) :=
      .plain hne hplain' hmark hrest
    have hvalue := ih.cons (hspells hrest) hone (hplain'.isLeftover hne hmark)
    have hleft : IsLeftover ['<'] (pauseOpen.tail ++ value ++ rest) := by
      rw [List.append_assoc]
      exact isLeftover_lessThan hno
    exact hvalue.cons (hspells hbehind) hone hleft
  | strayDelete hno hrest ih => exact ih.cons (hspells hrest) hone (isLeftover_deleteOpen hno)
  | @delete body inner rest ts _ hinside hrest _ ih =>
    have hown := Spells.delete (hspells hinside) .nil
    simp only [List.append_nil] at hown
    exact ih.cons (hspells hrest) hown ⟨body, rfl, hinside.tokenize_eq⟩

theorem placed_tokenize (u : Text) : Placed u (tokenize u) :=
  (reads_tokenize u fun _ _ => trivial : Reads (fun _ => True) u (tokenize u)).placed

/-- A text that is read with another one has the tokens that it has by itself. -/
theorem Part.tokenize_eq {s u : Text} {ts : List Token} (h : Part s u ts) : tokenize u = ts := by
  induction h with
  | whole => rfl
  | body outer hstands ih =>
    obtain ⟨front', own', back', hstands', body', rfl, hbody'⟩ := placed_tokenize _ _ _ _ ih
    obtain ⟨-, hown, -⟩ := hstands.unique hstands'
    rw [List.append_assoc, List.append_assoc] at hown
    rw [← hbody', List.append_cancel_right (List.append_cancel_left hown)]

/-! ## What is left as text -/

/-- **No markup that could be read is left as text.** A text `u` that is read when `s` is, be it `s`
or the body of a region at any depth, has the tokens that it has by itself, and each of them has one
place in it. A region stands around a body that is read in its turn. A text value is not empty; no
scope tag and no `<pause` is in it; a `<delete>` is in it only if it is nothing else, and no
`</delete>` stands behind it in `u`; and a `<` with `pause` right behind it in `u` stands only where
the pattern of pause tags does not fit. -/
theorem tokenize_leftovers {s u : Text} {ts : List Token} (h : Part s u ts) :
    tokenize u = ts ∧
      ∀ before t after, ts = before ++ t :: after →
        ∃ front own back, Stands u before t after front own back ∧
          (∀ front' own' back', Stands u before t after front' own' back' →
            front' = front ∧ own' = own ∧ back' = back) ∧
          (∀ inner, t = .delete inner →
            ∃ body, own = deleteOpen ++ body ++ deleteClose ∧ Part s body inner) ∧
          ∀ value, t = .text value →
            own = value ∧ value ≠ [] ∧
              (∀ tag : Tag, ¬tag.opening <:+: value ∧ ¬tag.closing <:+: value) ∧
              ¬pauseOpen <:+: value ∧
              (deleteOpen <:+: value → value = deleteOpen ∧ ¬deleteClose <:+: back) ∧
              (value = ['<'] → "pause".toList <+: back →
                ∀ p : PauseReading, ¬p.source <+: value ++ back) := by
  have htokens := h.tokenize_eq
  refine ⟨htokens, fun before t after hts => ?_⟩
  obtain ⟨front, own, back, hstands, hfits⟩ := placed_tokenize u before t after (htokens.trans hts)
  refine ⟨front, own, back, hstands, fun _ _ _ h' => hstands.unique h', ?_, ?_⟩
  · rintro inner rfl
    obtain ⟨body, rfl, -⟩ := hfits
    exact ⟨body, rfl, .body (hts ▸ h) hstands⟩
  · rintro value rfl
    obtain ⟨hne, hmarker, hdelete, hpause⟩ := hfits
    have hown : own = value := by
      obtain ⟨tags, hown⟩ := hstands.own
      cases hown with
      | text rest =>
        cases rest
        exact List.append_nil value
    exact ⟨hown, hne, fun tag => ⟨hmarker (.opening tag) nofun, hmarker (.closing tag) nofun⟩,
      hmarker .pause nofun, hdelete, hpause⟩

/-- A region that ends early, with a `<pause` that is no pause tag and a `<delete>` that nothing closes
in its body. Behind the body a `</delete>` stands, but not in it. -/
theorem tokenize_leftovers_nested :
    let s := "x<delete><pause>y<delete></delete>".toList
    let body := "<pause>y<delete>".toList
    let behind : List Token := [.text "pause>y".toList, .text deleteOpen]
    Part s body (.text ['<'] :: behind) ∧ tokenize body = .text ['<'] :: behind ∧
      ∃ front back, Stands body [] (.text ['<']) behind front ['<'] back ∧
        ("pause".toList <+: back → ∀ p : PauseReading, ¬p.source <+: ['<'] ++ back) := by
  intro s body behind
  have htokens : tokenize s = [.text ['x'], .delete (.text ['<'] :: behind)] := by decide +kernel
  have hbody : Spells (.text ['<'] :: behind) [] body := .text (.text (.text .nil))
  have hpart : Part s body (.text ['<'] :: behind) := by
    have hwhole : Part s s (tokenize s) := .whole
    have hstands : Stands s [.text ['x']] (.delete (.text ['<'] :: behind)) [] ['x']
        (deleteOpen ++ body ++ deleteClose) [] :=
      ⟨by decide, ⟨_, .text .nil⟩, ⟨_, .delete hbody .nil⟩, ⟨_, .nil⟩⟩
    rw [htokens] at hwhole
    exact .body hwhole hstands
  obtain ⟨htokens', hplaces⟩ := tokenize_leftovers hpart
  obtain ⟨front, own, back, hstands, -, -, htext⟩ := hplaces [] (.text ['<']) behind rfl
  obtain ⟨rfl, -, -, -, -, hpause⟩ := htext _ rfl
  exact ⟨hpart, htokens', front, back, hstands, hpause rfl⟩

end Typist
