import Typist.Proofs.Run.Contract
import Typist.Proofs.Run.Overflow
import Typist.Proofs.Run.Visible

/-!
# What a run counts

A run counts while it goes: a character when it types it, a region when it enters it, a close when it
finds nothing to match. What it has counted in the end can be read off its tokens beforehand. Every
character inside a region is erased once, by the innermost region around it, so that the regions at
the top account for all of them; and whether a close finds its tag is a matter of the tags alone,
since an erasure takes scopes off their parents but closes none.

* `everyToken`, `openTags`, `strayCloses` — tokens with the bodies of regions in their places, and a
  stack of tags that reads them;
* `Draft.tally`, `counted_script` — what strokes add to the counts, and what that is for a script;
* `Run.tally_strikeAll` — a run counts what its strokes add, on a faithful surface also the closes that
  it ignores;
* `Run.Reconciled` — the ledger is as long as the counts say, at any moment;
* `typeTokens_counts` — the counts of a run.
-/

namespace Typist

open Token

/-! ## Reading the counts off tokens -/

mutual

/-- A token, and for a region the tokens inside it behind it, at every depth. -/
def Token.every : Token → List Token
  | .delete inner => .delete inner :: everyToken inner
  | t => [t]

/-- The tokens at every depth, in the order in which they are played. -/
def everyToken : List Token → List Token
  | [] => []
  | t :: ts => t.every ++ everyToken ts

end

/-- Whether a token is a pause. -/
def Token.isPause : Token → Bool
  | .pause _ => true
  | _ => false

/-- Whether a token is a region. -/
def Token.isRegion : Token → Bool
  | .delete _ => true
  | _ => false

/-- The open tags behind a token that changes none but by itself. -/
def Token.onTags (tags : List Tag) : Token → List Tag
  | .scopeStart tag => tag :: tags
  | .scopeEnd tag => closeTag tag tags
  | _ => tags

/-- Whether a token closes a tag that is not open. -/
def Token.isStray (tags : List Tag) : Token → Bool
  | .scopeEnd tag => tag ∉ tags
  | _ => false

/-- The open tags behind tokens. -/
def openTags (tags : List Tag) (ts : List Token) : List Tag :=
  ts.foldl Token.onTags tags

/-- How many of these tokens close a tag that is not open. -/
def strayCloses (tags : List Tag) : List Token → Nat
  | [] => 0
  | t :: ts => (if t.isStray tags then 1 else 0) + strayCloses (t.onTags tags) ts

/-- The characters in the regions among these tokens, at every depth. -/
def erasedLengths (ts : List Token) : Nat :=
  ((ts.filter Token.isRegion).map Token.typedLength).sum

theorem openTags_append (tags : List Tag) (as bs : List Token) :
    openTags tags (as ++ bs) = openTags (openTags tags as) bs :=
  List.foldl_append

theorem strayCloses_append (tags : List Tag) (as bs : List Token) :
    strayCloses tags (as ++ bs) = strayCloses tags as + strayCloses (openTags tags as) bs := by
  induction as generalizing tags with
  | nil => exact (Nat.zero_add _).symm
  | cons a as ih =>
    rw [List.cons_append, strayCloses, strayCloses, ih, Nat.add_assoc]
    rfl

/-- What is typed is left, or stands in a region. -/
theorem typedLengths_eq (ts : List Token) :
    typedLengths ts = erasedLengths ts + (leftText ts).length := by
  induction ts with
  | nil => rfl
  | cons t ts ih =>
    have hleft : leftText (t :: ts) = t.left ++ leftText ts := List.flatMap_cons
    rw [typedLengths, ih, hleft, List.length_append]
    cases t with
    | text value =>
      change value.length + _ = erasedLengths ts + (value.length + _)
      omega
    | delete inner =>
      change _ = (typedLength (.delete inner) + erasedLengths ts) + (0 + _)
      omega
    | pause | scopeStart | scopeEnd =>
      change 0 + _ = erasedLengths ts + (0 + _)
      omega

/-! ## What strokes add to the counts -/

/-- The counts after a stroke, where these tags are open. -/
def Summary.strike (tags : List Tag) (s : Summary) : Stroke → Summary
  | .type _ => { s with typed := s.typed + 1 }
  | .erase => { s with erased := s.erased + 1 }
  | .pause _ => { s with pauses := s.pauses + 1 }
  | .enter _ => { s with regions := s.regions + 1 }
  | .closing tag => if tag ∈ tags then s else { s with ignoredCloses := s.ignoredCloses + 1 }
  | .opening _ | .hold | .turn _ => s

/-- The counts in which the surface has no part: whether a close is ignored is up to the tags that it
reports. -/
def Summary.units (s : Summary) : Summary :=
  { s.counts with ignoredCloses := 0 }

/-- The delays that were asked for have no part in the counts. -/
theorem Summary.counts_strike (tags : List Tag) (s : Summary) (x : Stroke) :
    (s.strike tags x).counts = s.counts.strike tags x := by
  cases x with
  | closing tag =>
    simp only [strike]
    split <;> rfl
  | type | opening | pause | enter | hold | turn | erase => rfl

/-- Neither have the open tags in those that are the same on any surface. -/
theorem Summary.units_strike (tags : List Tag) (s : Summary) (x : Stroke) :
    (s.strike tags x).units = (s.units.strike [] x).units := by
  cases x with
  | closing tag =>
    simp only [strike]
    split <;> rfl
  | type | opening | pause | enter | hold | turn | erase => rfl

namespace Draft

/-- The counts after strokes that are done at a draft. -/
def tally (d : Draft) (s : Summary) : List Stroke → Summary
  | [] => s
  | x :: xs => (d.strike x).tally (s.strike d.tags x) xs

/-- What strokes add, the first part and then the rest. -/
theorem tally_append (d : Draft) (s : Summary) (xs ys : List Stroke) :
    d.tally s (xs ++ ys) = (d.after xs).tally (d.tally s xs) ys := by
  induction xs generalizing d s with
  | nil => rfl
  | cons x xs ih => exact ih _ _

/-- Summaries that agree in something that strokes do not tell apart agree in it after strokes. -/
theorem tally_congr {α : Type} {f : Summary → α}
    (hf : ∀ tags s s' x, f s = f s' → f (s.strike tags x) = f (s'.strike tags x)) {d : Draft}
    {s s' : Summary} (h : f s = f s') (xs : List Stroke) : f (d.tally s xs) = f (d.tally s' xs) := by
  induction xs generalizing d s s' with
  | nil => exact h
  | cons x xs ih => exact ih (hf d.tags s s' x h)

theorem tally_type (d : Draft) (s : Summary) (value : Text) :
    d.tally s (value.map .type) = { s with typed := s.typed + value.length } := by
  induction value generalizing d s with
  | nil => rfl
  | cons c cs ih =>
    rw [List.map_cons, tally, ih, Summary.strike, List.length_cons, Nat.add_right_comm, Nat.add_assoc]

theorem tally_erase (d : Draft) (s : Summary) (n : Nat) :
    d.tally s (List.replicate n .erase) = { s with erased := s.erased + n } := by
  induction n generalizing d s with
  | zero => rfl
  | succ n ih =>
    rw [List.replicate_succ, tally, ih, Summary.strike, Nat.add_right_comm, Nat.add_assoc]

end Draft

/-! ### The tally of a script -/

mutual

/-- Behind the strokes of a token those tags are open that it leaves open. -/
theorem Draft.tags_after_strokes (d : Draft) (t : Token) :
    (d.after t.strokes).tags = openTags d.tags t.every := by
  cases t with
  | text value =>
    induction value generalizing d with
    | nil => rfl
    | cons c cs ih => exact ih (d.strike (.type c))
  | pause | scopeStart | scopeEnd => rfl
  | delete inner =>
    rw [Token.strokes, after_cons, after_append, after_cons, after_cons, tags_after_erase]
    exact Draft.tags_after_script d inner

/-- Behind a script those tags are open that its tokens leave open. -/
theorem Draft.tags_after_script (d : Draft) (ts : List Token) :
    (d.after (script ts)).tags = openTags d.tags (everyToken ts) := by
  cases ts with
  | nil => rfl
  | cons t ts =>
    rw [script, after_append, Draft.tags_after_script, Draft.tags_after_strokes, everyToken,
      openTags_append]

end

/-- From one summary to the other these tokens were counted, where these tags were open. -/
structure Counted (tags : List Tag) (ts : List Token) (s s' : Summary) : Prop where
  typed : s'.typed = s.typed + typedLengths ts
  /-- each region accounts for what is in it, at every depth -/
  erased : s'.erased = s.erased + erasedLengths ts
  pauses : s'.pauses = s.pauses + (everyToken ts).countP Token.isPause
  regions : s'.regions = s.regions + (everyToken ts).countP Token.isRegion
  ignoredCloses : s'.ignoredCloses = s.ignoredCloses + strayCloses tags (everyToken ts)

/-- A token is counted, and then the rest where its tags are open. -/
theorem Counted.cons {tags : List Tag} {t : Token} {ts : List Token} {s s' s'' : Summary}
    (h : Counted tags [t] s s') (h' : Counted (openTags tags t.every) ts s' s'') :
    Counted tags (t :: ts) s s'' := by
  have hevery : everyToken (t :: ts) = everyToken [t] ++ everyToken ts := by simp [everyToken]
  have hone : everyToken [t] = t.every := by simp [everyToken]
  constructor
  · rw [h'.typed, h.typed, Nat.add_assoc, ← typedLengths_append]
    rfl
  · rw [h'.erased, h.erased, Nat.add_assoc, erasedLengths, erasedLengths, ← List.sum_append,
      ← List.map_append, ← List.filter_append]
    rfl
  · rw [h'.pauses, h.pauses, Nat.add_assoc, hevery, List.countP_append]
  · rw [h'.regions, h.regions, Nat.add_assoc, hevery, List.countP_append]
  · rw [h'.ignoredCloses, h.ignoredCloses, Nat.add_assoc, hevery, strayCloses_append, hone]

mutual

/-- The strokes of a token count it. -/
theorem counted_strokes (d : Draft) (s : Summary) (t : Token) :
    Counted d.tags [t] s (d.tally s t.strokes) := by
  cases t with
  | text value =>
    rw [Token.strokes, Draft.tally_type]
    exact ⟨rfl, rfl, rfl, rfl, rfl⟩
  | pause | scopeStart => exact ⟨rfl, rfl, rfl, rfl, rfl⟩
  | scopeEnd tag =>
    have htally : d.tally s (Token.scopeEnd tag).strokes = s.strike d.tags (.closing tag) := rfl
    rw [htally, Summary.strike]
    split
    · rename_i hmem
      exact ⟨rfl, rfl, rfl, rfl, by simp [everyToken, Token.every, strayCloses, isStray, hmem]⟩
    · rename_i hmem
      exact ⟨rfl, rfl, rfl, rfl, by simp [everyToken, Token.every, strayCloses, isStray, hmem]⟩
  | delete inner =>
    obtain ⟨htyped, herased, hpauses, hregions, hstray⟩ :=
      counted_script d { s with regions := s.regions + 1 } inner
    have hevery : everyToken [.delete inner] = .delete inner :: everyToken inner := by
      simp [everyToken, Token.every]
    have hlengths : typedLengths [.delete inner] = typedLengths inner := rfl
    have hregion : erasedLengths [.delete inner] = typedLengths inner := rfl
    have htally : d.tally s (Token.delete inner).strokes =
        (d.after (script inner)).tally (d.tally { s with regions := s.regions + 1 } (script inner))
          (.hold :: .turn (leftText inner).length ::
            List.replicate (leftText inner).length .erase) := by
      rw [Token.strokes, Draft.tally, Draft.tally_append]
      rfl
    rw [htally, Draft.tally, Draft.tally, Draft.tally_erase]
    -- what the regions inside have not erased, this one erases
    have hleft := typedLengths_eq inner
    constructor
    · rw [hlengths]
      exact htyped
    · rw [hregion]
      change (d.tally _ _).erased + _ = _
      rw [herased]
      change s.erased + _ + _ = _
      omega
    · rw [hevery]
      exact hpauses
    · rw [hevery, List.countP_cons_of_pos rfl]
      change (d.tally _ _).regions = _
      rw [hregions]
      change s.regions + 1 + _ = _
      omega
    · rw [hevery]
      change (d.tally _ _).ignoredCloses = s.ignoredCloses + (0 + strayCloses d.tags _)
      rw [hstray, Nat.zero_add]

/-- **The tally of a script is what its tokens say.** -/
theorem counted_script (d : Draft) (s : Summary) (ts : List Token) :
    Counted d.tags ts s (d.tally s (script ts)) := by
  cases ts with
  | nil => exact ⟨rfl, rfl, rfl, rfl, rfl⟩
  | cons t ts =>
    have hrest := counted_script (d.after t.strokes) (d.tally s t.strokes) ts
    rw [d.tags_after_strokes] at hrest
    rw [script, Draft.tally_append]
    exact (counted_strokes d s t).cons hrest

end

/-! ## A run counts what its strokes add

A close asks the surface for the tags of the open scopes. The record of the run says what these were
made with, and nothing that is done later takes an act off the record; so whatever an erasure does to
the scopes, the surface reports the tags of the draft. -/

namespace Run

variable {σ : Type} [Surface σ] {F : Faithful σ} {s : σ} {d : Draft} {r r' : Run σ}

/-- The open scopes were made with these tags. -/
def OpenAs (tags : List Tag) (r : Run σ) : Prop :=
  List.Forall₂ (fun node tag => .container node tag ∈ r.history) r.scopes tags

/-- A faithful surface reports the tags that the open scopes were made with. -/
theorem OpenAs.map_tag? {tags : List Tag} (h : r.OpenAs tags) (hr : r.Proper F s) :
    r.scopes.map (Surface.tag? r.surface) = tags.map some := by
  have htags (node : Node) (tag : Tag) (hmem : .container node tag ∈ r.history) :
      Surface.tag? r.surface node = some tag := hr.used.tag? (.container node tag) hmem node rfl
  exact List.forall₂_eq_eq_eq ▸ List.forall₂_map_left_iff.2
    (List.forall₂_map_right_iff.2 (List.Forall₂.imp htags h))

omit [Surface σ] in
/-- What is on record stays there. -/
theorem OpenAs.mono {tags : List Tag} (h : r.OpenAs tags) (hscopes : r'.scopes = r.scopes)
    (hhistory : r.history ⊆ r'.history) : r'.OpenAs tags := by
  rw [OpenAs, hscopes]
  exact h.imp fun _ _ hmem => hhistory hmem

/-- The open scopes were made with the tags of the draft, whatever stroke is done. -/
theorem OpenAs.made (h : r.OpenAs d.tags) (hr : r.Proper F s) (x : Stroke) :
    (r.made x).OpenAs (d.strike x).tags := by
  have hhistory : r.history ⊆ (r.made x).history := by
    obtain ⟨acts, hacts, -⟩ := exists_history_made x r
    rw [hacts]
    exact List.subset_append_right acts r.history
  cases x with
  | type | pause | enter | turn | hold => exact h.mono rfl hhistory
  | opening tag =>
    refine .cons ?_ (h.imp fun _ _ hmem => hhistory hmem)
    exact List.mem_cons_of_mem _ List.mem_cons_self
  | closing tag =>
    have htags := h.map_tag? hr
    cases hc : closing? r.surface tag r.scopes with
    | none =>
      have hscopes : (r.made (.closing tag)).scopes = r.scopes := by
        simp only [Run.made, closeScope, hc]
        rfl
      rw [Draft.strike, closeTag_of_not_mem (closing?_eq_none htags hc)]
      exact h.mono hscopes hhistory
    | some found =>
      obtain ⟨closed, kept⟩ := found
      have hscopes : (r.made (.closing tag)).scopes = kept := by
        rw [Run.made, closeScope_of_eq_some hc, (foldl_removeIfEmpty_books _ _).scopes]
      obtain ⟨above, below, hsplit, habove, hlen, -⟩ := closing?_eq_some htags hc
      -- as many tags are taken off the draft as scopes are closed
      have hdrop := List.forall₂_drop closed.length h
      rw [closing?_append hc, List.drop_left, hsplit, hlen, ← List.drop_drop, List.drop_left] at hdrop
      rw [Draft.strike, hsplit, closeTag_append habove, OpenAs, hscopes]
      exact hdrop.imp fun _ _ hmem => hhistory hmem
  | erase =>
    refine h.mono ?_ hhistory
    cases hl : r.ledger with
    | nil => rw [made_erase_of_nil hl]
    | cons node ledger =>
      rw [made_erase_of_cons hl]
      exact (takeOff_books node _).scopes

omit [Surface σ] in
theorem OpenAs.of_waits {tags : List Tag} (h : r.OpenAs tags) (hw : Waits r r') :
    r'.OpenAs tags := by
  obtain ⟨waits, hhistory, -⟩ := hw.history
  refine h.mono hw.scopes ?_
  rw [hhistory]
  exact List.subset_append_right waits r.history

/-- **A stroke is counted as the draft says**, if it erases only where there is something. -/
theorem summary_made (hr : r.Proper F s) (htags : r.OpenAs d.tags) {x : Stroke}
    (herase : x = .erase → r.ledger ≠ []) :
    (r.made x).summary = r.summary.strike d.tags x := by
  cases x with
  | type | opening | pause | enter | hold | turn => rfl
  | closing tag =>
    have hscopes := htags.map_tag? hr
    cases hc : closing? r.surface tag r.scopes with
    | none =>
      have hmade : (r.made (.closing tag)).summary =
          { r.summary with ignoredCloses := r.summary.ignoredCloses + 1 } := by
        simp only [Run.made, closeScope, hc]
        rfl
      rw [hmade, Summary.strike, if_neg (closing?_eq_none hscopes hc)]
    | some found =>
      obtain ⟨closed, kept⟩ := found
      obtain ⟨above, below, hsplit, -⟩ := closing?_eq_some hscopes hc
      have hmem : tag ∈ d.tags := by
        rw [hsplit]
        exact List.mem_append_right above List.mem_cons_self
      rw [Run.made, closeScope_of_eq_some hc, (foldl_removeIfEmpty_books _ _).summary,
        Summary.strike, if_pos hmem]
  | erase =>
    obtain ⟨node, ledger, hl⟩ := List.exists_cons_of_ne_nil (herase rfl)
    rw [made_erase_of_cons hl, count, (takeOff_books node _).summary]
    rfl

/-- On any surface it is, closes left aside. -/
theorem units_made (tags : List Tag) {x : Stroke} (herase : x = .erase → r.ledger ≠ []) :
    (r.made x).summary.units = (r.summary.strike tags x).units := by
  rw [Summary.units_strike]
  cases x with
  | type | opening | pause | enter | hold | turn => rfl
  | closing tag =>
    have hstrike : (r.summary.units.strike [] (.closing tag)).units = r.summary.units := by
      rw [Summary.strike, if_neg List.not_mem_nil]
      rfl
    rw [hstrike, Run.made, closeScope]
    split
    · rfl
    · rw [(foldl_removeIfEmpty_books _ _).summary]
  | erase =>
    obtain ⟨node, ledger, hl⟩ := List.exists_cons_of_ne_nil (herase rfl)
    rw [made_erase_of_cons hl, count, (takeOff_books node _).summary]
    rfl

omit [Surface σ] in
theorem Waits.counts (hw : Waits r r') : r'.summary.counts = r.summary.counts :=
  (congrArg Summary.counts hw.summary :)

/-- Strokes that erase nothing but what they have typed are counted as the draft says, in anything
that one stroke is counted in as the draft says. -/
theorem tally_strikeAll {α : Type} {f : Summary → α} {J : Draft → Run σ → Prop}
    (hf : ∀ tags s s' x, f s = f s' → f (s.strike tags x) = f (s'.strike tags x))
    (hmade : ∀ x e q, J e q → (x = .erase → q.ledger ≠ []) →
      J (e.strike x) (q.made x) ∧ f (q.made x).summary = f (q.summary.strike e.tags x))
    (hwaits : ∀ e q q', Waits q q' → J e q → J e q' ∧ f q'.summary = f q.summary)
    {pace : Pace} {xs : List Stroke} (h : J d r) (hlen : r.ledger.length = d.units.length)
    (herase : d.ErasesAbove 0 xs) (hgo : r.strikeAll pace xs = .goes r') :
    f r'.summary = f (d.tally r.summary xs) := by
  -- what the strokes that are left make of the counts is the same all the way
  let I : List Stroke → Draft → Run σ → Prop := fun left e q =>
    J e q ∧ q.ledger.length = e.units.length ∧ e.ErasesAbove 0 left ∧
      f (e.tally q.summary left) = f (d.tally r.summary xs)
  have hmade' (x left e q) (h : I (x :: left) e q) : I left (e.strike x) (q.made x) := by
    obtain ⟨hq, hunits, habove, htally⟩ := h
    obtain ⟨hq', hx⟩ := hmade x e q hq (ledger_ne_nil_of_erasesAbove hunits habove)
    exact ⟨hq', length_ledger_made hunits, habove.2, (Draft.tally_congr hf hx left).trans htally⟩
  have hwaits' (left e q q') (hw : Waits q q') (h : I left e q) : I left e q' := by
    obtain ⟨hq, hunits, habove, htally⟩ := h
    obtain ⟨hq', hsame⟩ := hwaits e q q' hw hq
    refine ⟨hq', ?_, habove, (Draft.tally_congr hf hsame left).trans htally⟩
    rw [hw.ledger]
    exact hunits
  obtain ⟨-, -, -, htally⟩ := strikeAll_keeps hmade' hwaits' ⟨h, hlen, herase, rfl⟩ hgo
  exact htally

/-- A faithful surface has all closes counted as the draft says. -/
theorem counts_strikeAll (hs : F.Ok s) {pace : Pace} {xs : List Stroke} (hr : r.Proper F s)
    (htags : r.OpenAs d.tags) (hlen : r.ledger.length = d.units.length)
    (herase : d.ErasesAbove 0 xs) (hgo : r.strikeAll pace xs = .goes r') :
    r'.summary.counts = (d.tally r.summary xs).counts := by
  refine tally_strikeAll (J := fun e q => q.Proper F s ∧ q.OpenAs e.tags) (fun tags s s' x h => ?_)
    (fun x e q h hne => ?_) (fun e q q' hw h => ?_) ⟨hr, htags⟩ hlen herase hgo
  · rw [Summary.counts_strike, Summary.counts_strike, h]
  · exact ⟨⟨h.1.made hs x, h.2.made h.1 x⟩, congrArg Summary.counts (summary_made h.1 h.2 hne)⟩
  · exact ⟨⟨h.1.of_waits hw, h.2.of_waits hw⟩, hw.counts⟩

/-- Any surface has everything else counted so. -/
theorem units_strikeAll {pace : Pace} {xs : List Stroke} (hlen : r.ledger.length = d.units.length)
    (herase : d.ErasesAbove 0 xs) (hgo : r.strikeAll pace xs = .goes r') :
    r'.summary.units = (d.tally r.summary xs).units := by
  refine tally_strikeAll (J := fun _ _ => True) (fun tags s s' x h => ?_) (fun x e q _ hne => ?_)
    (fun e q q' hw _ => ?_) trivial hlen herase hgo
  · rw [Summary.units_strike tags s, Summary.units_strike tags s', h]
  · exact ⟨trivial, units_made e.tags hne⟩
  · rw [Summary.units, hw.counts]
    exact ⟨trivial, rfl⟩

/-! ## The ledger and the counts -/

/-- The ledger is as long as the counts say. -/
def Reconciled (r : Run σ) : Prop :=
  r.ledger.length + r.summary.erased = r.summary.typed

omit [Surface σ] in
/-- The net count is the length of the ledger. -/
theorem Reconciled.net (h : r.Reconciled) :
    r.summary.erased ≤ r.summary.typed ∧ r.summary.net = r.ledger.length := by
  rw [Summary.net]
  unfold Reconciled at h
  omega

omit [Surface σ] in
theorem Reconciled.of_waits (h : r.Reconciled) (hw : Waits r r') : r'.Reconciled := by
  rw [Reconciled, hw.ledger, hw.typed, hw.erased]
  exact h

/-- Every stroke changes the ledger and the counts alike. -/
theorem Reconciled.made (h : r.Reconciled) (x : Stroke) : (r.made x).Reconciled := by
  cases x with
  | opening | pause | enter | hold | turn => exact h
  | type value =>
    have hsum : r.ledger.length + 1 + r.summary.erased = r.summary.typed + 1 := by
      unfold Reconciled at h
      omega
    exact hsum
  | closing tag =>
    simp only [Run.made, closeScope]
    split
    · exact h
    · rename_i closed kept _
      have hbooks := foldl_removeIfEmpty_books closed { r with scopes := kept }
      rw [Reconciled, hbooks.ledger, hbooks.summary]
      exact h
  | erase =>
    cases hl : r.ledger with
    | nil =>
      rw [made_erase_of_nil hl]
      exact h
    | cons node ledger =>
      have hbooks := takeOff_books node { r with ledger }
      have hsum : ledger.length + (r.summary.erased + 1) = r.summary.typed := by
        rw [Reconciled, hl, List.length_cons] at h
        omega
      rw [made_erase_of_cons hl, Reconciled, count, hbooks.ledger, hbooks.summary]
      exact hsum

/-- However strokes end, the ledger is as long as the counts say. -/
theorem Reconciled.strikeAll (h : r.Reconciled) (pace : Pace) (xs : List Stroke) :
    (r.strikeAll pace xs).run.Reconciled :=
  strikeAll_run_keeps (fun x _ hq => hq.made x) (fun _ _ hw hq => hq.of_waits hw) pace xs h

end Run

/-! ## The counts of a run -/

/-- **What a run counts is what its tokens say.** A run that comes to its end has typed the
characters of all its tokens, and erased those inside the regions at the top, each once however deep
it stands; what is left is the text outside regions. It has counted the pauses and the regions at
every depth. On a surface that reports tags faithfully it has counted the closes that find no open tag
when a stack of tags reads the tokens, whatever was taken off or erased in between. A run that nobody
cancels comes to its end, unless its share of delays is out of bounds. And at every moment, also where
a run is cancelled, the ledger is as long as the counts say. -/
theorem typeTokens_counts {σ : Type} [Surface σ] (pace : Pace) (cancel : Cancel) (ts : List Token)
    (s : σ) :
    let out := typeTokens pace cancel ts s
    let counts := out.final.summary
    (out.halt = none →
      counts.typed = typedLengths ts ∧
        counts.erased = ((ts.filter Token.isRegion).map Token.typedLength).sum ∧
        counts.net = (leftText ts).length ∧
        counts.pauses = (everyToken ts).countP Token.isPause ∧
        counts.regions = (everyToken ts).countP Token.isRegion ∧
        ∀ F : Faithful σ, F.Ok s → counts.ignoredCloses = strayCloses [] (everyToken ts)) ∧
      (cancel = .never → ¬ 999.0 ≤ pace.jitter → out.halt = none) ∧
      out.final.Reconciled ∧ counts.erased ≤ counts.typed ∧
      counts.net = out.final.ledger.length ∧
      ∀ p ∈ stopsOf pace ts s, p.run.Reconciled := by
  intro out counts
  have hfinal : out.final = ((Run.begin pace cancel s).strikeAll pace (script ts)).run := by
    rw [← Run.playAll_eq_strikeAll]
    exact Outcome.final_ofStep _
  have hreconciled : out.final.Reconciled := by
    have hbegin : (Run.begin pace cancel s).Reconciled := rfl
    rw [hfinal]
    exact hbegin.strikeAll pace (script ts)
  obtain ⟨hle, hnet⟩ := hreconciled.net
  refine ⟨?_, ?_, hreconciled, hle, hnet, ?_⟩
  · intro hend
    obtain ⟨r, hgo, hr⟩ := exists_goes_of_halt hend
    have herase := Draft.erasesAbove_script (d := {}) (Nat.zero_le 0) ts
    have hcounted : Counted [] ts {} (Draft.tally {} {} (script ts)) := counted_script {} {} ts
    have hunits : counts.units = (Draft.tally {} {} (script ts)).units :=
      (congrArg (Summary.units ∘ Run.summary) hr).trans (Run.units_strikeAll rfl herase hgo)
    have hnone (n : Nat) : 0 + n = n := Nat.zero_add n
    have htyped : counts.typed = typedLengths ts :=
      (congrArg Summary.typed hunits).trans (hcounted.typed.trans (hnone _))
    have herased : counts.erased = erasedLengths ts :=
      (congrArg Summary.erased hunits).trans (hcounted.erased.trans (hnone _))
    have hpauses : counts.pauses = (everyToken ts).countP Token.isPause :=
      (congrArg Summary.pauses hunits).trans (hcounted.pauses.trans (hnone _))
    have hregions : counts.regions = (everyToken ts).countP Token.isRegion :=
      (congrArg Summary.regions hunits).trans (hcounted.regions.trans (hnone _))
    refine ⟨htyped, herased, ?_, hpauses, hregions, fun F hs => ?_⟩
    · rw [Summary.net, htyped, herased, typedLengths_eq, Nat.add_sub_cancel_left]
    · have hcounts : counts.counts = (Draft.tally {} {} (script ts)).counts :=
        (congrArg (Summary.counts ∘ Run.summary) hr).trans
          (Run.counts_strikeAll hs (.begin hs pace cancel) .nil rfl herase hgo)
      exact (congrArg Summary.ignoredCloses hcounts).trans (hcounted.ignoredCloses.trans (hnone _))
  · intro hnever hjitter
    subst hnever
    refine halt_never fun hhalt => ?_
    obtain ⟨done, x, rest, q, g, -, -, hg⟩ := typeTokens_overflow_iff.1 hhalt
    exact Run.wait?_ne_none (fun g => ⟨Pace.isSome_typingDelay hjitter g,
      Pace.isSome_erasingDelay hjitter g⟩) x q g hg
  · intro p hp
    obtain ⟨before, x, after, q, -, hq, hw⟩ := Run.behind_of_mem_stops hp
    have hbegin : (Run.begin pace .never s).Reconciled := rfl
    have hbefore := hbegin.strikeAll pace before
    rw [Run.watched_never_eq rfl] at hq
    rw [hq] at hbefore
    exact (hbefore.made x).of_waits hw

/-- A region that closes a scope in front of it and has a region in it, on a sheet whose root hangs
below itself. The inner region takes the scope off that the outer one has opened, and the close behind
them finds nothing open. -/
theorem typeTokens_counts_nested :
    let F : Faithful Sheet := keeps_self.faithful
    let s := Sheet.blank.append .root .root
    let region : List Token := [.scopeEnd .bold, .scopeStart .gray, .delete [.text ['b', 'c']],
      .pause 7, .text ['d'], .scopeEnd .gray]
    let ts : List Token := [.scopeStart .bold, .text ['a'], .delete region, .scopeEnd .bold]
    let counts := (typeTokens .steady .never ts s).final.summary
    F.Ok s ∧ ¬ 999.0 ≤ Pace.steady.jitter ∧ (typeTokens .steady .never ts s).halt = none ∧
      counts.typed = 4 ∧ counts.erased = 3 ∧ counts.net = 1 ∧ counts.pauses = 1 ∧
      counts.regions = 2 ∧ counts.ignoredCloses = 1 := by
  intro F s region ts counts
  have hs : F.Ok s := Sheet.sound_blank.linked.append Nat.zero_lt_one Nat.zero_lt_one
  have hjitter : ¬ 999.0 ≤ Pace.steady.jitter := by decide +kernel
  have hlengths : typedLengths ts = 4 := rfl
  have hregion : ((ts.filter Token.isRegion).map Token.typedLength).sum = 3 := rfl
  have hleft : (leftText ts).length = 1 := rfl
  have hpause : (everyToken ts).countP Token.isPause = 1 := by decide
  have hregions : (everyToken ts).countP Token.isRegion = 2 := by decide
  have hstray : strayCloses [] (everyToken ts) = 1 := by decide
  obtain ⟨hcounts, hend, -⟩ := typeTokens_counts .steady .never ts s
  have hhalt := hend rfl hjitter
  rw [hlengths, hregion, hleft, hpause, hregions, hstray] at hcounts
  obtain ⟨htyped, herased, hnet, hpauses, hentered, hignored⟩ := hcounts hhalt
  exact ⟨hs, hjitter, hhalt, htyped, herased, hnet, hpauses, hentered, hignored F hs⟩

end Typist
