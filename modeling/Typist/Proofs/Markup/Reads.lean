import Typist.Proofs.Markup.DeleteTags
import Typist.Proofs.Markup.Spelling

/-!
# What a text reads as

A text reads as tokens if it is put together from pieces that the reader of markup takes one by one.
Which piece it takes depends on what follows: plain text runs on to the next marker, a `<pause` is
a stray one if no pause tag can be read there, and a region ends where its delete tags say.

* `IsPlain`, `AtMarker` — texts without a marker, and texts at which plain text stops;
* `Reads` — the texts that read as given tokens, with a condition on the pause tags in them;
* `Reads.tokenize_eq` and `reads_tokenize` — this is what `tokenize` does, and nothing else.
-/

namespace Typist

open Token

/-! ## Plain text -/

/-- Whether a text has no marker in it. -/
def IsPlain (s : Text) : Prop :=
  ∀ m : Marker, ¬m.text <:+: s

/-- Whether plain text stops in front of a text: it is empty or starts with a marker. -/
def AtMarker (s : Text) : Prop :=
  s = [] ∨ ∃ m : Marker, ∃ rest, s = m.text ++ rest

theorem atMarker_nil : AtMarker [] :=
  .inl rfl

theorem atMarker_text (m : Marker) (rest : Text) : AtMarker (m.text ++ rest) :=
  .inr ⟨m, rest, rfl⟩

namespace Marker

theorem text_eq_cons (m : Marker) : ∃ name, m.text = '<' :: name ∧ '<' ∉ name := by
  cases m with
  | delete => exact ⟨"delete>".toList, by decide, by decide⟩
  | pause => exact ⟨"pause".toList, by decide, by decide⟩
  | opening tag => exact ⟨tag.name ++ ['>'], rfl, by cases tag <;> decide⟩
  | closing tag => exact ⟨'/' :: (tag.name ++ ['>']), rfl, by cases tag <;> decide⟩

/-- No marker is the beginning of another one. -/
theorem eq_of_text_isPrefix {m m' : Marker} (h : m.text <+: m'.text) : m = m' := by
  have key : ∀ m ∈ all, ∀ m' ∈ all, m.text.isPrefixOf m'.text = true → m = m' := by decide +kernel
  exact key m m.mem_all m' m'.mem_all (List.isPrefixOf_iff_prefix.2 h)

theorem leading?_eq_none_iff {s : Text} : leading? s = none ↔ ∀ m : Marker, ¬m.text <+: s := by
  simp only [leading?, List.findSome?_eq_none_iff, Option.map_eq_none_iff]
  constructor
  · rintro h m ⟨r, rfl⟩
    have := Text.after?_eq_some_iff.2 (rfl : m.text ++ r = m.text ++ r)
    rw [h m m.mem_all] at this
    cases this
  · intro h m _
    cases hr : m.text.after? s with
    | none => rfl
    | some r => exact absurd ⟨r, (Text.after?_eq_some_iff.1 hr).symm⟩ (h m)

/-- A text that starts with a marker starts with no other one. -/
theorem leading?_text_append (m : Marker) (rest : Text) :
    leading? (m.text ++ rest) = some (m, rest) := by
  cases h : leading? (m.text ++ rest) with
  | none => exact absurd (List.prefix_append _ _) (leading?_eq_none_iff.1 h m)
  | some found =>
    obtain ⟨m', rest'⟩ := found
    have hs := leading?_source h
    obtain rfl : m = m' := by
      obtain hp | hp := List.prefix_or_prefix_of_prefix (List.prefix_append m.text rest)
        (hs ▸ List.prefix_append m'.text rest')
      · exact eq_of_text_isPrefix hp
      · exact (eq_of_text_isPrefix hp).symm
    rw [List.append_cancel_left hs]

end Marker

theorem AtMarker.head? {s : Text} (h : AtMarker s) : s = [] ∨ s.head? = some '<' := by
  obtain rfl | ⟨m, rest, rfl⟩ := h
  · exact .inl rfl
  · obtain ⟨name, hm, -⟩ := m.text_eq_cons
    exact .inr (by simp [hm])

/-- Where plain text stops, no tag is cut. -/
theorem AtMarker.deleteTags_append {t : Text} (h : AtMarker t) (s : Text) :
    deleteTags (s ++ t) = deleteTags s ++ deleteTags t :=
  Apart.deleteTags_append (.inr h.head?)

/-- A marker has its `<` in front, so that it does not begin in one text and end in another that
starts with a marker. -/
theorem Marker.prefix_append_iff {m : Marker} {s t : Text} (hs : s ≠ []) (ht : AtMarker t) :
    m.text <+: s ++ t ↔ m.text <+: s := by
  refine ⟨fun h => ?_, fun h => h.trans (List.prefix_append _ _)⟩
  obtain hp | ⟨r, hr⟩ := List.prefix_or_prefix_of_prefix h (List.prefix_append s t)
  · exact hp
  · obtain ⟨name, hm, hname⟩ := m.text_eq_cons
    obtain ⟨c, cs, rfl⟩ := List.exists_cons_of_ne_nil hs
    have hrt : r <+: t := (List.prefix_append_right_inj (c :: cs)).1 (hr ▸ h)
    obtain ⟨-, rfl⟩ := List.cons.inj ((List.cons_append ..).symm.trans (hr.trans hm))
    cases r with
    | nil => exact ⟨[], by simpa using hr.symm⟩
    | cons d ds =>
      exfalso
      obtain ⟨t', rfl⟩ := hrt
      obtain h | h := ht.head?
      · cases h
      · obtain rfl : d = '<' := by simpa using h
        exact hname (List.mem_append_right _ List.mem_cons_self)

theorem IsPlain.tail {c : Char} {cs : Text} (h : IsPlain (c :: cs)) : IsPlain cs :=
  fun m hm => h m (hm.trans (List.suffix_cons c cs).isInfix)

theorem IsPlain.cons {c : Char} {cs : Text} (hc : Marker.leading? (c :: cs) = none)
    (hcs : IsPlain cs) : IsPlain (c :: cs) := by
  intro m hm
  obtain hp | hi := List.infix_cons_iff.1 hm
  · exact Marker.leading?_eq_none_iff.1 hc m hp
  · exact hcs m hi

/-- Another character than `<` starts no marker. -/
theorem leading?_cons_of_ne {c : Char} (h : c ≠ '<') (cs : Text) :
    Marker.leading? (c :: cs) = none := by
  rw [Marker.leading?_eq_none_iff]
  rintro m ⟨r, hr⟩
  obtain ⟨name, hm, -⟩ := m.text_eq_cons
  rw [hm] at hr
  exact h (List.cons.inj hr).1.symm

theorem IsPlain.append_left {s : Text} (h : IsPlain s) {v : Text} (hv : '<' ∉ v) :
    IsPlain (v ++ s) := by
  induction v with
  | nil => exact h
  | cons c v ih =>
    obtain ⟨hc, hv⟩ := List.ne_and_not_mem_of_not_mem_cons hv
    exact .cons (leading?_cons_of_ne (Ne.symm hc) _) (ih hv)

theorem isPlain_nil : IsPlain [] :=
  fun m h => m.text_ne_nil (List.infix_nil.1 h)

/-- A text without a marker has no opening delete tag. -/
theorem IsPlain.opening_not_mem {s : Text} (h : IsPlain s) : .opening ∉ deleteTags s :=
  fun hmem => h .delete (infix_of_mem_deleteTags hmem)

/-- Plain text in front of a place where it stops is what the reader takes. -/
theorem IsPlain.untilMarker_append {value rest : Text} (h : IsPlain value) (hrest : AtMarker rest) :
    untilMarker (value ++ rest) = (value, Marker.leading? rest) := by
  induction value with
  | nil =>
    obtain rfl | ⟨m, rest, rfl⟩ := hrest
    · rfl
    · have hlead := m.leading?_text_append rest
      obtain ⟨name, hm, -⟩ := m.text_eq_cons
      rw [List.nil_append, hlead]
      rw [hm, List.cons_append] at hlead ⊢
      rw [untilMarker, hlead]
  | cons c cs ih =>
    have hlead : Marker.leading? (c :: cs ++ rest) = none := by
      rw [Marker.leading?_eq_none_iff]
      exact fun m hm => h m
        ((Marker.prefix_append_iff (List.cons_ne_nil c cs) hrest).1 hm).isInfix
    rw [List.cons_append] at hlead ⊢
    rw [untilMarker, hlead, ih h.tail]

theorem fromMarker_leading? {s : Text} (h : AtMarker s) : fromMarker (Marker.leading? s) = s := by
  obtain rfl | ⟨m, rest, rfl⟩ := h
  · rfl
  · rw [m.leading?_text_append]
    rfl

/-- What the reader takes for plain text has no marker. -/
theorem isPlain_untilMarker (s : Text) : IsPlain (untilMarker s).1 := by
  fun_induction untilMarker s with
  | case1 | case2 => exact isPlain_nil
  | case3 c cs h ih =>
    refine .cons ?_ ih
    rw [Marker.leading?_eq_none_iff] at h ⊢
    intro m hm
    exact h m (hm.trans ((List.prefix_cons_inj c).2 ⟨_, untilMarker_source cs⟩))

/-- Behind what the reader takes for plain text, plain text stops. -/
theorem atMarker_fromMarker (s : Text) : AtMarker (fromMarker (untilMarker s).2) := by
  cases h : (untilMarker s).2 with
  | none => exact atMarker_nil
  | some found => exact atMarker_text found.1 found.2

/-! ## Reading -/

/-- A text reads as tokens, and all the pause tags in it satisfy `ok`. -/
inductive Reads (ok : Text → Prop) : Text → List Token → Prop
  /-- the empty text -/
  | nil : Reads ok [] []
  /-- text up to the next marker -/
  | plain {value rest ts} (hne : value ≠ []) (hplain : IsPlain value) (hrest : AtMarker rest)
      (next : Reads ok rest ts) : Reads ok (value ++ rest) (.text value :: ts)
  /-- the opening tag of a scope -/
  | scopeStart {tag rest ts} (next : Reads ok rest ts) :
      Reads ok (tag.opening ++ rest) (.scopeStart tag :: ts)
  /-- the closing tag of a scope -/
  | scopeEnd {tag rest ts} (next : Reads ok rest ts) :
      Reads ok (tag.closing ++ rest) (.scopeEnd tag :: ts)
  /-- a pause tag, up to its `>` -/
  | pause {inside millis rest ts} (hin : '>' ∉ inside) (hmillis : pauseDuration? inside = some millis)
      (htag : ok (pauseOpen ++ inside ++ ['>'])) (next : Reads ok rest ts) :
      Reads ok (pauseOpen ++ inside ++ ['>'] ++ rest) (.pause millis :: ts)
  /-- a `<pause` that starts no pause tag, with the text up to the next marker -/
  | strayPause {value rest ts} (hplain : IsPlain value) (hrest : AtMarker rest)
      (hno : readPause? (value ++ rest) = none) (next : Reads ok rest ts) :
      Reads ok (pauseOpen ++ value ++ rest) (.text ['<'] :: .text (pauseOpen.tail ++ value) :: ts)
  /-- a `<delete>` that nothing closes -/
  | strayDelete {rest ts} (hno : .closing ∉ deleteTags rest) (next : Reads ok rest ts) :
      Reads ok (deleteOpen ++ rest) (.text deleteOpen :: ts)
  /-- a region, up to where its tags make it end -/
  | delete {body inner rest ts} (hends : EndsRegion (deleteTags body) (deleteTags rest))
      (inside : Reads ok body inner) (next : Reads ok rest ts) :
      Reads ok (deleteOpen ++ body ++ deleteClose ++ rest) (.delete inner :: ts)

/-! ## What the reader takes -/

theorem nextPiece?_plain {value rest : Text} (hne : value ≠ []) (hplain : IsPlain value)
    (hrest : AtMarker rest) : nextPiece? (value ++ rest) = some (.plain value, rest) := by
  obtain ⟨c, cs, rfl⟩ := List.exists_cons_of_ne_nil hne
  rw [nextPiece?, hplain.untilMarker_append hrest]
  simp only [fromMarker_leading? hrest]

theorem nextPiece?_text (m : Marker) (rest : Text) :
    nextPiece? (m.text ++ rest) = some (m.piece rest) := by
  have h := isPlain_nil.untilMarker_append (atMarker_text m rest)
  rw [List.nil_append, m.leading?_text_append] at h
  rw [nextPiece?, h]

/-- What the reader of pause tags needs of a text up to its first `>`. -/
theorem readPause?_append {inside : Text} (hin : '>' ∉ inside) (rest : Text) :
    readPause? (inside ++ '>' :: rest) =
      (pauseDuration? inside).map fun millis => (inside, millis, rest) := by
  have hall : ∀ c ∈ inside, decide (c ≠ '>') = true := by
    intro c hc
    simpa using fun h : c = '>' => hin (h ▸ hc)
  have htake : (inside ++ '>' :: rest).takeWhile (· ≠ '>') = inside :=
    takeWhile_run hall (by simp)
  have hdrop : (inside ++ '>' :: rest).dropWhile (· ≠ '>') = '>' :: rest :=
    dropWhile_run hall (by simp)
  rw [readPause?, hdrop, htake]

/-- The body and the rest that the reader makes of what stands behind `<delete>`. -/
theorem piece_delete {body rest : Text}
    (h : EndsRegion (deleteTags body) (deleteTags rest)) :
    Marker.piece .delete (body ++ (deleteClose ++ rest)) = (.region body, rest) := by
  simp only [Marker.piece, regionLength?_eq_length_iff.2 h, List.take_left]
  rw [← List.drop_drop, List.drop_left, List.drop_left]

/-- A marker gives the token of the piece that it starts. -/
theorem tokenize_text_append (m : Marker) {behind rest : Text} {p : Piece}
    (h : m.piece behind = (p, rest)) :
    tokenize (m.text ++ behind) = p.token :: tokenize rest :=
  tokenize_eq_cons (h ▸ nextPiece?_text m behind)

/-- Plain text up to where it stops gives a text token. -/
theorem tokenize_plain_append {value rest : Text} (hne : value ≠ []) (hplain : IsPlain value)
    (hrest : AtMarker rest) : tokenize (value ++ rest) = .text value :: tokenize rest :=
  tokenize_eq_cons (nextPiece?_plain hne hplain hrest)

/-- Behind the `<` of a `<pause`, text is as plain as it is behind the whole. -/
theorem IsPlain.behind_stray {value : Text} (h : IsPlain value) :
    IsPlain (pauseOpen.tail ++ value) :=
  h.append_left (by decide)

theorem tail_pauseOpen_append_ne_nil (value : Text) : pauseOpen.tail ++ value ≠ [] :=
  List.append_ne_nil_of_left_ne_nil (by decide) value

/-- What a text reads as is what `tokenize` makes of it. -/
theorem Reads.tokenize_eq {ok : Text → Prop} {s : Text} {ts : List Token} (h : Reads ok s ts) :
    tokenize s = ts := by
  induction h with
  | nil => exact tokenize_nil
  | plain hne hplain hrest _ ih => rw [tokenize_plain_append hne hplain hrest, ih]
  | @scopeStart tag rest ts _ ih =>
    exact ih ▸ tokenize_text_append (.opening tag) (rfl : _ = (Piece.opening tag, rest))
  | @scopeEnd tag rest ts _ ih =>
    exact ih ▸ tokenize_text_append (.closing tag) (rfl : _ = (Piece.closing tag, rest))
  | @pause inside millis rest ts hin hmillis _ _ ih =>
    have hpiece : Marker.piece .pause (inside ++ '>' :: rest) = (.pause inside millis, rest) := by
      simp only [Marker.piece, readPause?_append hin, hmillis, Option.map_some]
    have := tokenize_text_append .pause hpiece
    rw [ih] at this
    simpa [Marker.text, Piece.token] using this
  | @strayPause value rest ts hplain hrest hno _ ih =>
    have hpiece : Marker.piece .pause (value ++ rest) =
        (.strayPause, pauseOpen.tail ++ value ++ rest) := by
      simp only [Marker.piece, hno, List.append_assoc]
    have := tokenize_text_append .pause hpiece
    rw [tokenize_plain_append (tail_pauseOpen_append_ne_nil value) hplain.behind_stray hrest,
      ih] at this
    simpa only [Marker.text, Piece.token, List.append_assoc] using this
  | @strayDelete rest ts hno _ ih =>
    have hpiece : Marker.piece .delete rest = (.strayDelete, rest) := by
      simp only [Marker.piece, regionLength?_eq_none_iff.2 hno]
    exact ih ▸ tokenize_text_append .delete hpiece
  | @delete body inner rest ts hends _ _ ihin ih =>
    have := tokenize_text_append .delete (piece_delete hends)
    rw [ih, Piece.token, ihin] at this
    simpa only [Marker.text, List.append_assoc] using this

/-- Inversion for the reader's first piece: what it says of the text. -/
theorem nextPiece?_cases {s rest : Text} {p : Piece} (h : nextPiece? s = some (p, rest)) :
    (∃ value, p = .plain value ∧ value ≠ [] ∧ s = value ++ rest ∧ IsPlain value ∧ AtMarker rest) ∨
      ∃ (m : Marker) (behind : Text), s = m.text ++ behind ∧ m.piece behind = (p, rest) := by
  have hsource := untilMarker_source s
  have hplain := isPlain_untilMarker s
  have hmark := atMarker_fromMarker s
  unfold nextPiece? at h
  split at h
  · cases h
  · rename_i m behind heq
    rw [heq] at hsource
    exact .inr ⟨m, behind, hsource.symm, Option.some.inj h⟩
  · rename_i c cs found heq
    rw [heq] at hsource hplain hmark
    obtain ⟨rfl, rfl⟩ := Prod.mk.inj (Option.some.inj h)
    exact .inl ⟨_, rfl, List.cons_ne_nil c cs, hsource.symm, hplain, hmark⟩

/-- **Every text reads as its tokens.** -/
theorem reads_tokenize {ok : Text → Prop} (s : Text) (hok : ∀ tag ∈ pauseTags s, ok tag) :
    Reads ok s (tokenize s) := by
  induction hn : s.length using Nat.strong_induction_on generalizing s with
  | _ n ih =>
    subst hn
    cases h : nextPiece? s with
    | none =>
      obtain rfl := nextPiece?_eq_none_iff.1 h
      simpa using Reads.nil
    | some found =>
      obtain ⟨p, rest⟩ := found
      have htags := pauseTags_eq_append h
      rw [htags] at hok
      have hok₁ : ∀ tag ∈ p.pauseTags, ok tag := fun tag hm => hok tag (List.mem_append_left _ hm)
      have hok₂ : ∀ tag ∈ pauseTags rest, ok tag := fun tag hm => hok tag (List.mem_append_right _ hm)
      have hrest := ih _ (length_rest_lt h) rest hok₂ rfl
      rw [tokenize_eq_cons h]
      obtain ⟨value, rfl, hne, rfl, hplain, hmark⟩ | ⟨m, behind, rfl, hpiece⟩ := nextPiece?_cases h
      · exact .plain hne hplain hmark hrest
      cases m with
      | opening tag =>
        obtain ⟨rfl, rfl⟩ := Prod.mk.inj hpiece
        exact .scopeStart hrest
      | closing tag =>
        obtain ⟨rfl, rfl⟩ := Prod.mk.inj hpiece
        exact .scopeEnd hrest
      | pause =>
        simp only [Marker.piece] at hpiece
        split at hpiece
        · rename_i inside millis behind' hread
          obtain ⟨rfl, rfl⟩ := Prod.mk.inj hpiece
          obtain ⟨hin, htag⟩ := isPauseTag_of_readPause? hread
          have := Reads.pause hin ((isPauseTag_iff hin).1 htag) (hok₁ _ List.mem_cons_self) hrest
          rw [readPause?_source hread]
          simpa [Marker.text, Piece.token] using this
        · rename_i hno
          obtain ⟨rfl, rfl⟩ := Prod.mk.inj hpiece
          -- the reader takes the plain text behind the `<` next
          have hsource := untilMarker_source behind
          have hplain := isPlain_untilMarker behind
          have hmark := atMarker_fromMarker behind
          generalize (untilMarker behind).1 = value at hsource hplain
          generalize fromMarker (untilMarker behind).2 = rest at hsource hmark
          subst hsource
          have hnext := nextPiece?_plain (tail_pauseOpen_append_ne_nil value) hplain.behind_stray hmark
          rw [List.append_assoc] at hnext
          have hlt := (length_rest_lt hnext).trans (length_rest_lt h)
          rw [pauseTags_eq_append hnext] at hok₂
          rw [tokenize_eq_cons hnext, Marker.text, ← List.append_assoc]
          exact .strayPause hplain hmark hno (ih _ hlt rest hok₂ rfl)
      | delete =>
        simp only [Marker.piece] at hpiece
        split at hpiece
        · rename_i n hlen
          obtain ⟨rfl, rfl⟩ := Prod.mk.inj hpiece
          have hbody := ih _ (length_body_lt h) (behind.take n) hok₁ rfl
          have := Reads.delete (endsRegion_of_regionLength? hlen) hbody hrest
          rw [List.append_assoc, List.append_assoc, ← List.append_assoc (behind.take n),
            ← deleteClose_at_regionLength? hlen] at this
          exact this
        · rename_i hno
          obtain ⟨rfl, rfl⟩ := Prod.mk.inj hpiece
          exact .strayDelete (regionLength?_eq_none_iff.1 hno) hrest

end Typist
