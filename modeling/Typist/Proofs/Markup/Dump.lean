import Typist.Proofs.Markup.ReadBack
import Typist.Typewriter

/-!
# Writing down what was read

A slide is listed as the markup of the tokens that it is played as. Between the slide and the
listing the text changes in two ways. Every pause tag is spelled canonically, and with what else it
said a `</delete>` may be gone. And line breaks behind regions are gone. Read again, the listing
still gives the tokens that were written, unless a pause tag of the slide had swallowed a `<delete>`.

* `Trims` — tokens after texts among them have lost line breaks at their start, as those behind a
  region do; regions keep what is in them;
* `Reads.thins` — the listing has the delete tags of the text, without some closing ones; and has
  them all if they balance (`Reads.balanced`);
* `Reads.readPause?_eq_none` — a stray `<pause` stays one, although pause tags behind it change;
* `Reads.trims` — the listing reads as the tokens that it was written for.
-/

namespace Typist

open Token

/-! ## Line breaks taken away -/

/-- The second list is the first one after some texts have lost line breaks at their start, those
with nothing left altogether. -/
inductive Trims : List Token → List Token → Prop
  | nil : Trims [] []
  | keep {ts ts'} (t : Token) (next : Trims ts ts') : Trims (t :: ts) (t :: ts')
  | trim {breaks value ts ts'} (hbreaks : ∀ c ∈ breaks, c = '\n' ∨ c = '\r') (hne : value ≠ [])
      (next : Trims ts ts') : Trims (.text (breaks ++ value) :: ts) (.text value :: ts')
  | drop {breaks ts ts'} (hbreaks : ∀ c ∈ breaks, c = '\n' ∨ c = '\r') (next : Trims ts ts') :
      Trims (.text breaks :: ts) ts'

/-- Behind a region, a text is kept without its line breaks, if there is anything else in it. -/
theorem normalizeFrom_text (value : Text) (ts : List Token) :
    normalizeFrom true (.text value :: ts) =
      match dropBreaks value with
      | [] => normalizeFrom true ts
      | c :: cs => .text (c :: cs) :: normalizeFrom false ts := by
  rfl

theorem dropBreaks_dropBreaks (s : Text) : dropBreaks (dropBreaks s) = dropBreaks s := by
  fun_induction dropBreaks s with
  | case1 cs ih | case2 cs ih => exact ih
  | case3 cs h₁ h₂ => rw [dropBreaks.eq_def]; split <;> simp_all

/-- Tokens in normal form are so already. -/
theorem normalizeFrom_normalizeFrom (armed : Bool) (ts : List Token) :
    normalizeFrom armed (normalizeFrom armed ts) = normalizeFrom armed ts := by
  induction ts generalizing armed with
  | nil => rfl
  | cons t ts ih =>
    cases t with
    | delete inner => exact congrArg (Token.delete inner :: ·) (ih true)
    | pause millis => exact congrArg (Token.pause millis :: ·) (ih armed)
    | scopeStart tag => exact congrArg (Token.scopeStart tag :: ·) (ih armed)
    | scopeEnd tag => exact congrArg (Token.scopeEnd tag :: ·) (ih armed)
    | text value =>
      cases armed with
      | false => exact congrArg (Token.text value :: ·) (ih false)
      | true =>
        rw [normalizeFrom_text]
        cases hkept : dropBreaks value with
        | nil => exact ih true
        | cons c cs =>
          have hagain := dropBreaks_dropBreaks value
          rw [hkept] at hagain
          simp only [normalizeFrom_text, hagain, ih false]

/-- A text is line breaks, and then what `dropBreaks` leaves of it. -/
theorem exists_dropBreaks (s : Text) :
    ∃ breaks : Text, (∀ c ∈ breaks, c = '\n' ∨ c = '\r') ∧ s = breaks ++ dropBreaks s := by
  fun_induction dropBreaks s with
  | case1 cs ih =>
    obtain ⟨breaks, hbreaks, hs⟩ := ih
    exact ⟨'\n' :: breaks, by simpa using hbreaks, congrArg ('\n' :: ·) hs⟩
  | case2 cs ih =>
    obtain ⟨breaks, hbreaks, hs⟩ := ih
    exact ⟨'\r' :: '\n' :: breaks, by simpa using hbreaks, congrArg ('\r' :: '\n' :: ·) hs⟩
  | case3 cs => exact ⟨[], by simp, rfl⟩

namespace Trims

variable {t : Token} {ts ts' : List Token} {value : Text}

theorem refl : ∀ ts, Trims ts ts
  | [] => .nil
  | t :: ts => .keep t (refl ts)

theorem normalizeFrom (armed : Bool) (ts : List Token) :
    Trims ts (Typist.normalizeFrom armed ts) := by
  induction ts generalizing armed with
  | nil => exact .nil
  | cons t ts ih =>
    cases t with
    | delete inner => exact .keep _ (ih true)
    | pause | scopeStart | scopeEnd => exact .keep _ (ih armed)
    | text value =>
      cases armed with
      | false => exact .keep _ (ih false)
      | true =>
        obtain ⟨breaks, hbreaks, hvalue⟩ := exists_dropBreaks value
        rw [normalizeFrom_text]
        cases hkept : dropBreaks value with
        | nil =>
          rw [hvalue, hkept, List.append_nil]
          exact .drop hbreaks (ih true)
        | cons c cs =>
          rw [hvalue, hkept]
          exact .trim hbreaks (List.cons_ne_nil c cs) (ih false)

/-- What has become of a text. -/
theorem text_cases (h : Trims (.text value :: ts) ts') (hne : value ≠ []) :
    ∃ breaks kept ts'', value = breaks ++ kept ∧ (∀ c ∈ breaks, c = '\n' ∨ c = '\r') ∧
      Trims ts ts'' ∧ markups ts' = kept ++ markups ts'' ∧
        (kept ≠ [] ∧ ts' = .text kept :: ts'' ∨ kept = [] ∧ ts' = ts'') := by
  cases h with
  | keep _ next => exact ⟨[], value, _, rfl, by simp, next, rfl, .inl ⟨hne, rfl⟩⟩
  | trim hbreaks hkept next => exact ⟨_, _, _, rfl, hbreaks, next, rfl, .inl ⟨hkept, rfl⟩⟩
  | drop hbreaks next =>
    exact ⟨value, [], ts', (List.append_nil value).symm, hbreaks, next, rfl, .inr ⟨rfl, rfl⟩⟩

/-- A text that does not start with a line break is kept. -/
theorem exists_of_head {c : Char} {cs : Text} (h : Trims (.text (c :: cs) :: ts) ts')
    (hc : c ≠ '\n' ∧ c ≠ '\r') : ∃ ts'', ts' = .text (c :: cs) :: ts'' ∧ Trims ts ts'' := by
  obtain ⟨breaks, kept, ts'', hvalue, hbreaks, next, -, hts⟩ := h.text_cases (List.cons_ne_nil c cs)
  cases breaks with
  | nil =>
    obtain ⟨-, rfl⟩ | ⟨rfl, -⟩ := hts
    · exact ⟨ts'', by rw [hvalue, List.nil_append], next⟩
    · cases hvalue
  | cons d breaks =>
    obtain ⟨rfl, -⟩ := List.cons.inj hvalue
    exact absurd (hbreaks _ List.mem_cons_self) (by simpa using hc)

end Trims

/-! ## Where plain text stops -/

theorem IsPlain.not_atMarker {value : Text} (h : IsPlain value) (hne : value ≠ []) {rest : Text}
    (hrest : AtMarker rest) : ¬AtMarker (value ++ rest) := by
  rintro (hnil | ⟨m, behind, hm⟩)
  · exact hne (List.append_eq_nil_iff.1 hnil).1
  · have hp : m.text <+: value ++ rest := ⟨behind, hm.symm⟩
    exact h m ((Marker.prefix_append_iff hne hrest).1 hp).isInfix

theorem markups_strayPause (value : Text) (ts : List Token) :
    markups (.text ['<'] :: .text (pauseOpen.tail ++ value) :: ts) =
      pauseOpen ++ value ++ markups ts := by
  have hpause : pauseOpen = '<' :: pauseOpen.tail := by decide
  rw [markups, markup, markups, markup, List.singleton_append, ← List.cons_append, ← List.cons_append,
    ← hpause]

/-- What has become of a stray `<pause` and the text behind it. -/
theorem Trims.strayPause {value : Text} {ts ts' : List Token}
    (h : Trims (.text ['<'] :: .text (pauseOpen.tail ++ value) :: ts) ts') :
    ∃ ts'', ts' = .text ['<'] :: .text (pauseOpen.tail ++ value) :: ts'' ∧ Trims ts ts'' := by
  obtain ⟨ts₁, rfl, h₁⟩ := h.exists_of_head (by decide)
  obtain ⟨ts₂, rfl, h₂⟩ := h₁.exists_of_head (by decide)
  exact ⟨ts₂, rfl, h₂⟩

/-- What has become of a stray `<delete>`. -/
theorem Trims.strayDelete {ts ts' : List Token} (h : Trims (.text deleteOpen :: ts) ts') :
    ∃ ts'', ts' = .text deleteOpen :: ts'' ∧ Trims ts ts'' :=
  h.exists_of_head (by decide)

/-- Where a text starts with a marker, so does what is listed for it. -/
theorem Reads.atMarker {ok : Text → Prop} {s : Text} {ts ts' : List Token} (h : Reads ok s ts)
    (ht : Trims ts ts') (hs : AtMarker s) : AtMarker (markups ts') := by
  cases h with
  | nil =>
    cases ht
    exact atMarker_nil
  | plain hne hplain hrest => exact absurd hs (hplain.not_atMarker hne hrest)
  | strayPause =>
    obtain ⟨ts'', rfl, -⟩ := ht.strayPause
    rw [markups_strayPause, List.append_assoc]
    exact atMarker_text .pause _
  | strayDelete =>
    obtain ⟨ts'', rfl, -⟩ := ht.strayDelete
    exact atMarker_text .delete _
  | scopeStart | scopeEnd | pause | delete =>
    cases ht
    exact atMarker_markups (by simp [isText])

/-! ## Delete tags -/

/-- Whether a pause tag has not swallowed the start of a region. -/
def SparesOpening (tag : Text) : Prop :=
  ¬deleteOpen <:+: tag

instance : DecidablePred SparesOpening :=
  fun tag => inferInstanceAs (Decidable ¬deleteOpen <:+: tag)

theorem SparesOpening.not_mem {tag : Text} (h : SparesOpening tag) : .opening ∉ deleteTags tag :=
  fun hmem => h (infix_of_mem_deleteTags hmem)

theorem deleteTags_breaks_append {breaks : Text} (h : ∀ c ∈ breaks, c = '\n' ∨ c = '\r')
    (s : Text) : deleteTags (breaks ++ s) = deleteTags s := by
  induction breaks with
  | nil => rfl
  | cons c breaks ih =>
    have hc : c ≠ '<' := by
      rintro rfl
      simpa using h '<' List.mem_cons_self
    rw [List.cons_append, deleteTags_cons_of_ne hc, ih fun d hd => h d (List.mem_cons_of_mem c hd)]

variable {s : Text} {ts ts' : List Token}

/-- The listing has the delete tags of the text, without some closing ones. -/
theorem Reads.thins (h : Reads SparesOpening s ts) (ht : Trims ts ts') :
    Thins (deleteTags s) (deleteTags (markups ts')) := by
  induction h generalizing ts' with
  | nil =>
    cases ht
    exact .nil
  | plain hne _ hrest next ih =>
    obtain ⟨breaks, kept, ts'', rfl, hbreaks, ht', hmarkups, -⟩ := ht.text_cases hne
    rw [hmarkups, hrest.deleteTags_append, (next.atMarker ht' hrest).deleteTags_append,
      deleteTags_breaks_append hbreaks]
    exact (Thins.refl _).append (ih ht')
  | scopeStart next ih =>
    cases ht with
    | keep _ ht' =>
      rw [markups, markup, deleteTags_append_of_getLast (getLast?_opening _),
        deleteTags_append_of_getLast (getLast?_opening _)]
      exact (Thins.refl _).append (ih ht')
  | scopeEnd next ih =>
    cases ht with
    | keep _ ht' =>
      rw [markups, markup, deleteTags_append_of_getLast (getLast?_closing _),
        deleteTags_append_of_getLast (getLast?_closing _)]
      exact (Thins.refl _).append (ih ht')
  | pause _ _ htag next ih =>
    cases ht with
    | keep _ ht' =>
      rw [markups, markup, deleteTags_append_of_getLast List.getLast?_concat,
        deleteTags_append_of_getLast (getLast?_pauseTag _), deleteTags_pauseTag]
      exact (Thins.nil_of_not_mem htag.not_mem).append (ih ht')
  | strayPause _ hrest _ next ih =>
    obtain ⟨ts'', rfl, ht'⟩ := ht.strayPause
    rw [markups_strayPause, hrest.deleteTags_append, (next.atMarker ht' hrest).deleteTags_append]
    exact (Thins.refl _).append (ih ht')
  | strayDelete _ next ih =>
    obtain ⟨ts'', rfl, ht'⟩ := ht.strayDelete
    rw [markups, markup, deleteTags_append_of_getLast (by decide),
      deleteTags_append_of_getLast (by decide)]
    exact (Thins.refl _).append (ih ht')
  | delete _ inside next ihin ih =>
    cases ht with
    | keep _ ht' =>
      rw [markups, markup, deleteTags_region, deleteTags_region]
      exact .keep _ ((ihin (.refl _)).append (.keep _ (ih ht')))

/-- If the delete tags of the text balance, the listing has them all: a closing one that a pause tag
has swallowed would be one too many. -/
theorem Reads.balanced (h : Reads SparesOpening s ts) (ht : Trims ts ts')
    (hd : nesting? 0 (deleteTags s) = some 0) : deleteTags (markups ts') = deleteTags s := by
  induction h generalizing ts' with
  | nil =>
    cases ht
    rfl
  | plain hne hplain hrest next ih =>
    rw [hrest.deleteTags_append] at hd ⊢
    obtain ⟨-, hd'⟩ := nesting?_zero_append hplain.opening_not_mem hd
    obtain ⟨breaks, kept, ts'', rfl, hbreaks, ht', hmarkups, -⟩ := ht.text_cases hne
    rw [deleteTags_breaks_append hbreaks, hmarkups, (next.atMarker ht' hrest).deleteTags_append, ih ht' hd']
  | scopeStart next ih =>
    cases ht with
    | keep _ ht' =>
      rw [deleteTags_append_of_getLast (getLast?_opening _), deleteTags_opening] at hd ⊢
      rw [markups, markup, deleteTags_append_of_getLast (getLast?_opening _), deleteTags_opening,
        ih ht' hd]
  | scopeEnd next ih =>
    cases ht with
    | keep _ ht' =>
      rw [deleteTags_append_of_getLast (getLast?_closing _), deleteTags_closing] at hd ⊢
      rw [markups, markup, deleteTags_append_of_getLast (getLast?_closing _), deleteTags_closing,
        ih ht' hd]
  | pause _ _ htag next ih =>
    cases ht with
    | keep _ ht' =>
      rw [deleteTags_append_of_getLast List.getLast?_concat] at hd ⊢
      obtain ⟨hnone, hd'⟩ := nesting?_zero_append htag.not_mem hd
      rw [markups, markup, deleteTags_append_of_getLast (getLast?_pauseTag _), deleteTags_pauseTag,
        hnone, ih ht' hd']
  | strayPause hplain hrest _ next ih =>
    obtain ⟨ts'', rfl, ht'⟩ := ht.strayPause
    rw [hrest.deleteTags_append] at hd ⊢
    rw [markups_strayPause, (next.atMarker ht' hrest).deleteTags_append]
    rw [deleteTags_pauseOpen_append] at hd ⊢
    obtain ⟨-, hd'⟩ := nesting?_zero_append hplain.opening_not_mem hd
    rw [ih ht' hd']
  | strayDelete hno next ih =>
    rw [deleteTags_append_of_getLast (by decide), deleteTags_deleteOpen] at hd
    obtain ⟨e, he, hle⟩ := exists_nesting?_of_not_mem hno 1
    have : e = 0 := Option.some.inj (he.symm.trans hd)
    omega
  | delete hends inside next ihin ih =>
    cases ht with
    | keep _ ht' =>
      rw [deleteTags_region] at hd ⊢
      obtain ⟨hbody, hrest⟩ := hends.balanced hd
      rw [markups, markup, deleteTags_region, ihin (.refl _) hbody, ih ht' hrest]

/-! ## Stray pauses -/

/-- What is found in the end of a text is found in the text. -/
theorem lastDuration?_append {before : Char} {s t ds : Text}
    (h : lastDuration? (s.getLastD before) t = some ds) :
    lastDuration? before (s ++ t) = some ds := by
  induction s generalizing before with
  | nil => exact h
  | cons c cs ih =>
    rw [List.getLastD_cons] at h
    rw [List.cons_append, lastDuration?, ih h]

/-- Whether a pause tag can be read depends on the text up to its first `>`. -/
theorem readPause?_eq_none_congr {s : Text} (h : '>' ∈ s) (t t' : Text)
    (hno : readPause? (s ++ t) = none) : readPause? (s ++ t') = none := by
  obtain ⟨inside, behind, rfl, hin⟩ := List.eq_append_cons_of_mem h
  rw [List.append_assoc, List.cons_append, readPause?_append hin, Option.map_eq_none_iff] at hno ⊢
  exact hno

/-- Where no pause tag can be read although one stands further on, none can be read when that one is
spelled canonically: it is the word character behind `<pause` that is in the way. -/
theorem readPause?_eq_none_of_pauseTag {s inside rest : Text} {millis : UInt64} (hin : '>' ∉ inside)
    (hmillis : pauseDuration? inside = some millis)
    (hno : readPause? (s ++ (pauseOpen ++ inside ++ ['>'] ++ rest)) = none) (rest' : Text) :
    readPause? (s ++ (pauseTag millis ++ rest')) = none := by
  by_cases hs : '>' ∈ s
  · exact readPause?_eq_none_congr hs _ _ hno
  have inside_of (inside rest : Text) : s ++ (pauseOpen ++ inside ++ ['>'] ++ rest) =
      (s ++ (pauseOpen ++ inside)) ++ '>' :: rest := by
    simp
  have outside {inside : Text} (hin : '>' ∉ inside) : '>' ∉ s ++ (pauseOpen ++ inside) := by
    have hopen : '>' ∉ pauseOpen := by decide
    simp [hs, hopen, hin]
  rw [inside_of, readPause?_append (outside hin), Option.map_eq_none_iff] at hno
  rw [pauseTag_eq, inside_of, readPause?_append (outside (not_mem_canonicalInside millis)),
    Option.map_eq_none_iff, Option.eq_none_iff_forall_ne_some]
  intro found hfound
  -- both have the same first character, and the attribute of the pause tag is there in both
  obtain ⟨hhead, -⟩ := pauseDuration?_eq_some_iff.1 hfound
  obtain ⟨-, ds, hds, hvalue⟩ := pauseDuration?_eq_some_iff.1 hmillis
  have hlast : (s ++ pauseOpen).getLastD 'e' = 'e' := by
    rw [List.getLastD_eq_getLast?, List.getLast?_append_of_ne_nil _ (by decide)]
    decide
  have hattr : lastDuration? 'e' (s ++ (pauseOpen ++ inside)) = some ds := by
    rw [← List.append_assoc]
    exact lastDuration?_append (by rw [hlast]; exact hds)
  have hsame : (s ++ (pauseOpen ++ inside)).head? =
      (s ++ (pauseOpen ++ canonicalInside millis)).head? := by
    cases s <;> rfl
  rw [← hsame] at hhead
  have := pauseDuration?_eq_some_iff.2 ⟨hhead, ds, hattr, hvalue⟩
  rw [hno] at this
  cases this

/-- Where a text cannot be read as the rest of a pause tag, the listing cannot, either. -/
theorem Reads.readPause?_eq_none {ok : Text → Prop} (h : Reads ok s ts) (ht : Trims ts ts')
    (hs : AtMarker s) {before : Text} (hno : readPause? (before ++ s) = none) :
    readPause? (before ++ markups ts') = none := by
  induction h generalizing ts' before with
  | nil =>
    cases ht
    exact hno
  | plain hne hplain hrest => exact absurd hs (hplain.not_atMarker hne hrest)
  | @scopeStart tag rest ts next ih =>
    cases ht with
    | keep _ ht' =>
      have hmem : '>' ∈ before ++ tag.opening :=
        List.mem_append_right _ (List.mem_of_getLast? (getLast?_opening tag))
      rw [← List.append_assoc] at hno
      rw [markups, markup, ← List.append_assoc]
      exact readPause?_eq_none_congr hmem _ _ hno
  | @scopeEnd tag rest ts next ih =>
    cases ht with
    | keep _ ht' =>
      have hmem : '>' ∈ before ++ tag.closing :=
        List.mem_append_right _ (List.mem_of_getLast? (getLast?_closing tag))
      rw [← List.append_assoc] at hno
      rw [markups, markup, ← List.append_assoc]
      exact readPause?_eq_none_congr hmem _ _ hno
  | pause hin hmillis _ _ _ =>
    cases ht with
    | keep _ ht' => exact readPause?_eq_none_of_pauseTag hin hmillis hno _
  | strayPause _ hrest _ next ih =>
    obtain ⟨ts'', rfl, ht'⟩ := ht.strayPause
    rw [← List.append_assoc] at hno
    rw [markups_strayPause, ← List.append_assoc]
    exact ih ht' hrest hno
  | strayDelete =>
    obtain ⟨ts'', rfl, ht'⟩ := ht.strayDelete
    have hmem : '>' ∈ before ++ deleteOpen := List.mem_append_right _ (by decide)
    rw [← List.append_assoc] at hno
    rw [markups, markup, ← List.append_assoc]
    exact readPause?_eq_none_congr hmem _ _ hno
  | delete _ inside next ihin ih =>
    cases ht with
    | keep _ ht' =>
      have hmem : '>' ∈ before ++ deleteOpen := List.mem_append_right _ (by decide)
      simp only [markups, markup, List.append_assoc] at hno ⊢
      rw [← List.append_assoc] at hno ⊢
      exact readPause?_eq_none_congr hmem _ _ hno

/-! ## The listing read again -/

theorem IsPlain.of_append_left {breaks kept : Text} (h : IsPlain (breaks ++ kept)) : IsPlain kept :=
  fun m hm => h m (hm.trans (List.suffix_append breaks kept).isInfix)

/-- **The listing reads as the tokens that it was written for.** -/
theorem Reads.trims (h : Reads SparesOpening s ts) (ht : Trims ts ts') :
    Reads Canonical (markups ts') ts' := by
  induction h generalizing ts' with
  | nil =>
    cases ht
    exact .nil
  | plain hne hplain hrest next ih =>
    obtain ⟨breaks, kept, ts'', rfl, -, ht', -, hts⟩ := ht.text_cases hne
    obtain ⟨hkept, rfl⟩ | ⟨-, rfl⟩ := hts
    · exact .plain hkept hplain.of_append_left (next.atMarker ht' hrest) (ih ht')
    · exact ih ht'
  | scopeStart _ ih =>
    cases ht with
    | keep _ ht' => exact .scopeStart (ih ht')
  | scopeEnd _ ih =>
    cases ht with
    | keep _ ht' => exact .scopeEnd (ih ht')
  | @pause _ millis _ _ _ _ _ _ ih =>
    cases ht with
    | keep _ ht' =>
      have hpause := pauseTag_eq millis
      rw [markups, markup, hpause]
      exact .pause (not_mem_canonicalInside millis) (pauseDuration?_canonicalInside millis)
        ⟨millis, hpause.symm⟩ (ih ht')
  | strayPause hplain hrest hno next ih =>
    obtain ⟨ts'', rfl, ht'⟩ := ht.strayPause
    rw [markups_strayPause]
    exact .strayPause hplain (next.atMarker ht' hrest) (next.readPause?_eq_none ht' hrest hno)
      (ih ht')
  | strayDelete hno next ih =>
    obtain ⟨ts'', rfl, ht'⟩ := ht.strayDelete
    exact .strayDelete (fun hmem => hno ((next.thins ht').mem_of_mem hmem)) (ih ht')
  | delete hends inside next ihin ih =>
    cases ht with
    | keep _ ht' =>
      have hends' := hends.thins (inside.balanced (.refl _)) (inside.thins (.refl _))
        (next.thins ht')
      exact .delete hends' (ihin (.refl _)) (ih ht')

/-! ## Slides -/

/-- **A listing means what its slide does**, if no pause tag of the slide has swallowed the start of a
region: it is played as the same tokens, so that a typewriter does the same with it on every surface;
and its own listing is itself. -/
theorem tokensToPlay_markups {s : Text} (h : ∀ tag ∈ pauseTags s, SparesOpening tag) :
    let listing := markups (tokensToPlay s)
    tokensToPlay listing = tokensToPlay s ∧ markups (tokensToPlay listing) = listing ∧
      ∀ {σ : Type} [Surface σ] (t : Typewriter) (surface : σ),
        t.typeMarkup listing surface = t.typeMarkup s surface := by
  intro listing
  have hread : tokenize listing = tokensToPlay s :=
    ((reads_tokenize s h).trims (.normalizeFrom false _)).tokenize_eq
  have hplay : tokensToPlay listing = tokensToPlay s := by
    rw [tokensToPlay, hread]
    exact normalizeFrom_normalizeFrom false _
  refine ⟨hplay, congrArg markups hplay, fun t surface => ?_⟩
  rw [Typewriter.typeMarkup, hplay]
  rfl

/-- Here a region ends early, at the first `</delete>`; the second one is swallowed. It is gone from the
listing, with the line break and what else the pause tag said, and the stray `<pause` stays. -/
theorem tokensToPlay_markups_tolerant :
    let s := "<delete><delete><delete>a</delete>\n<pause x duration='7'</delete>b<pausec<i>".toList
    let listing := "<delete><delete><delete>a</delete><pause duration=\"7\"/>b<pausec<i>".toList
    (∀ tag ∈ pauseTags s, SparesOpening tag) ∧ markups (tokensToPlay s) = listing ∧
      tokensToPlay listing = tokensToPlay s := by
  intro s listing
  have htags : ∀ tag ∈ pauseTags s, SparesOpening tag := by decide +kernel
  have hlisting : markups (tokensToPlay s) = listing := by decide +kernel
  exact ⟨htags, hlisting, hlisting ▸ (tokensToPlay_markups htags).1⟩

/-- Without the condition it fails: the pause tag has swallowed a `<delete>`, so that the region runs
on to the second `</delete>`. In the listing it ends at the first one. -/
theorem tokensToPlay_markups_ne :
    let s := "<delete><pause duration=5<delete></delete></delete>".toList
    tokensToPlay s = [.delete [.pause 5, .text deleteClose]] ∧
      tokensToPlay (markups (tokensToPlay s)) = [.delete [.pause 5], .text deleteClose] := by
  decide +kernel

end Typist
