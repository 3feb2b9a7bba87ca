import Typist.Proofs.Markup.Dump

/-!
# Line breaks behind regions

The normal form of tokens takes line breaks away behind delete regions, and changes nothing else. Which
text loses how many is told here token by token, each with the tokens in front of it: there has to be
a region, and every text since has to consist of line breaks.

* `IsBreaks`, `LeadingBreaks` — texts of line breaks, and the longest one that a text begins with;
* `Arms` — tokens behind which a text loses the breaks at its start;
* `Becomes`, `BecomesAll` — what a token becomes behind others, and what a list of them does;
* `normalizeFrom_cons` — what one token does to the normal form: its own part, and whether a region
  still counts behind it;
* `normalize_strips` — the normal form is what the tokens become, and is in normal form already.
-/

namespace Typist

open Token

/-! ## Line breaks -/

/-- A text of line breaks: line feeds, each with a carriage return in front of it or without. -/
inductive IsBreaks : Text → Prop
  | nil : IsBreaks []
  | feed {s : Text} (next : IsBreaks s) : IsBreaks ('\n' :: s)
  | returnFeed {s : Text} (next : IsBreaks s) : IsBreaks ('\r' :: '\n' :: s)

/-- The longest text of line breaks that `s` begins with, and the rest of it. -/
structure LeadingBreaks (s breaks rest : Text) : Prop where
  source : s = breaks ++ rest
  isBreaks : IsBreaks breaks
  longest : ∀ other, IsBreaks other → other <+: s → other.length ≤ breaks.length

theorem leadingBreaks_dropBreaks (s : Text) : ∃ breaks, LeadingBreaks s breaks (dropBreaks s) := by
  fun_induction dropBreaks s with
  | case1 cs ih =>
    obtain ⟨breaks, hsource, hbreaks, hlongest⟩ := ih
    refine ⟨'\n' :: breaks, congrArg ('\n' :: ·) hsource, .feed hbreaks, fun other hother hp => ?_⟩
    cases hother with
    | nil => exact Nat.zero_le _
    | feed next => exact Nat.succ_le_succ (hlongest _ next (List.cons_prefix_cons.1 hp).2)
    | returnFeed next => exact absurd (List.cons_prefix_cons.1 hp).1 (by decide)
  | case2 cs ih =>
    obtain ⟨breaks, hsource, hbreaks, hlongest⟩ := ih
    refine ⟨'\r' :: '\n' :: breaks, congrArg ('\r' :: '\n' :: ·) hsource, .returnFeed hbreaks,
      fun other hother hp => ?_⟩
    cases hother with
    | nil => exact Nat.zero_le _
    | feed next => exact absurd (List.cons_prefix_cons.1 hp).1 (by decide)
    | returnFeed next =>
      have hp' := (List.cons_prefix_cons.1 (List.cons_prefix_cons.1 hp).2).2
      exact Nat.succ_le_succ (Nat.succ_le_succ (hlongest _ next hp'))
  | case3 cs hfeed hreturn =>
    refine ⟨[], rfl, .nil, fun other hother hp => ?_⟩
    cases hother with
    | nil => exact Nat.le_refl _
    | feed next =>
      obtain ⟨back, hback⟩ := hp
      exact (hfeed _ hback.symm).elim
    | returnFeed next =>
      obtain ⟨back, hback⟩ := hp
      exact (hreturn _ hback.symm).elim

/-- There is one longest text of line breaks, and `dropBreaks` leaves what stands behind it. -/
theorem LeadingBreaks.rest_eq {s breaks rest : Text} (h : LeadingBreaks s breaks rest) :
    rest = dropBreaks s := by
  obtain ⟨breaks', h'⟩ := leadingBreaks_dropBreaks s
  have hlength : breaks.length = breaks'.length :=
    Nat.le_antisymm (h'.longest _ h.isBreaks ⟨rest, h.source.symm⟩)
      (h.longest _ h'.isBreaks ⟨_, h'.source.symm⟩)
  exact (List.append_inj (h.source.symm.trans h'.source) hlength).2

theorem isBreaks_iff {s : Text} : IsBreaks s ↔ dropBreaks s = [] := by
  obtain ⟨breaks, h⟩ := leadingBreaks_dropBreaks s
  constructor
  · intro hs
    have hlength := congrArg List.length h.source
    have hle := h.longest s hs List.prefix_rfl
    rw [List.length_append] at hlength
    exact List.eq_nil_of_length_eq_zero (by omega)
  · intro hnil
    have hsource := h.source
    rw [hnil, List.append_nil] at hsource
    exact hsource ▸ h.isBreaks

/-- What is left without line breaks at its start begins with none. -/
theorem not_prefix_of_dropBreaks_eq {s breaks : Text} (h : dropBreaks s = s)
    (hbreaks : IsBreaks breaks) (hne : breaks ≠ []) : ¬breaks <+: s := by
  intro hp
  obtain ⟨leading, hleading⟩ := leadingBreaks_dropBreaks s
  have hsource := congrArg List.length hleading.source
  have hle := hleading.longest _ hbreaks hp
  have hpos := List.length_pos_iff.2 hne
  rw [h, List.length_append] at hsource
  omega

/-! ## Token by token -/

/-- Whether a text behind these tokens loses the line breaks at its start: a region is among them, and
every text behind the region consists of line breaks. -/
def Arms (before : List Token) : Prop :=
  ∃ front inner behind, before = front ++ .delete inner :: behind ∧
    ∀ value, .text value ∈ behind → IsBreaks value

/-- What a token becomes behind others. -/
inductive Becomes (before : List Token) : Token → List Token → Prop
  /-- what is no text is kept -/
  | token {t : Token} (h : ∀ value, t ≠ .text value) : Becomes before t [t]
  | text {value : Text} (h : ¬Arms before) : Becomes before (.text value) [.text value]
  | rest {value breaks rest : Text} (h : Arms before) (hbreaks : LeadingBreaks value breaks rest)
      (hne : rest ≠ []) : Becomes before (.text value) [.text rest]
  | nothing {value breaks : Text} (h : Arms before) (hbreaks : LeadingBreaks value breaks []) :
      Becomes before (.text value) []

/-- What tokens become behind others, one after the other. -/
inductive BecomesAll : (before ts out : List Token) → Prop
  | nil {before} : BecomesAll before [] []
  | cons {before t own ts out} (first : Becomes before t own)
      (next : BecomesAll (before ++ [t]) ts out) : BecomesAll before (t :: ts) (own ++ out)

namespace Token

/-- Whether a token is a delete region. -/
def isDelete : Token → Bool
  | .delete _ => true
  | .text _ | .pause _ | .scopeStart _ | .scopeEnd _ => false

/-- The part of a token in the normal form. -/
def settled (armed : Bool) : Token → List Token
  | .text value =>
    if armed then
      match dropBreaks value with
      | [] => []
      | c :: cs => [.text (c :: cs)]
    else [.text value]
  | t => [t]

/-- Whether a region counts behind a token, if it does in front of it. -/
def arms (armed : Bool) : Token → Bool
  | .delete _ => true
  | .text value => armed && (dropBreaks value).isEmpty
  | .pause _ | .scopeStart _ | .scopeEnd _ => armed

end Token

/-- The normal form of a token with others behind it. -/
theorem normalizeFrom_cons (armed : Bool) (t : Token) (ts : List Token) :
    normalizeFrom armed (t :: ts) = t.settled armed ++ normalizeFrom (t.arms armed) ts := by
  cases t with
  | pause | scopeStart | scopeEnd | delete => rfl
  | text value =>
    cases armed with
    | false => rfl
    | true =>
      rw [normalizeFrom_text, settled, arms, if_pos rfl]
      cases dropBreaks value <;> rfl

theorem not_arms_nil : ¬Arms [] := by
  rintro ⟨front, inner, behind, h, -⟩
  exact List.append_ne_nil_of_right_ne_nil front (List.cons_ne_nil _ _) h.symm

/-- A region counts behind one more token exactly if that is a region, or it did in front of the token,
and the token is no text with anything but line breaks in it. -/
theorem arms_concat_iff {before : List Token} {t : Token} :
    Arms (before ++ [t]) ↔
      t.isDelete = true ∨ Arms before ∧ ∀ value, t = .text value → IsBreaks value := by
  constructor
  · rintro ⟨front, inner, behind, heq, hbreaks⟩
    rcases List.eq_nil_or_concat behind with rfl | ⟨behind, last, rfl⟩
    · obtain ⟨-, ht⟩ := List.append_inj' heq rfl
      cases ht
      exact .inl rfl
    · rw [List.concat_eq_append] at heq hbreaks
      rw [← List.cons_append, ← List.append_assoc] at heq
      obtain ⟨rfl, ht⟩ := List.append_inj' heq rfl
      cases ht
      refine .inr ⟨⟨front, inner, behind, rfl, fun value hmem => ?_⟩, ?_⟩
      · exact hbreaks value (List.mem_append_left _ hmem)
      · rintro value rfl
        exact hbreaks value (List.mem_append_right _ List.mem_cons_self)
  · rintro (ht | ⟨⟨front, inner, behind, rfl, hbreaks⟩, ht⟩)
    · cases t with
      | delete inner => exact ⟨before, inner, [], rfl, nofun⟩
      | text | pause | scopeStart | scopeEnd => cases ht
    · refine ⟨front, inner, behind ++ [t], by simp, fun value hmem => ?_⟩
      obtain hmem | hmem := List.mem_append.1 hmem
      · exact hbreaks value hmem
      · exact ht value (List.mem_singleton.1 hmem).symm

theorem arms_concat {before : List Token} {armed : Bool} (h : armed = true ↔ Arms before)
    (t : Token) : t.arms armed = true ↔ Arms (before ++ [t]) := by
  rw [arms_concat_iff, ← h]
  cases t with
  | delete inner => exact iff_of_true rfl (.inl rfl)
  | pause | scopeStart | scopeEnd => simp [Token.arms, isDelete]
  | text value => simp [Token.arms, isDelete, isBreaks_iff]

/-- The part of a token in the normal form is what it becomes. -/
theorem becomes_settled {before : List Token} {armed : Bool} (h : armed = true ↔ Arms before)
    (t : Token) : Becomes before t (t.settled armed) := by
  cases t with
  | pause | scopeStart | scopeEnd | delete => exact .token nofun
  | text value =>
    cases armed with
    | false => exact .text fun harms => absurd (h.2 harms) Bool.false_ne_true
    | true =>
      obtain ⟨breaks, hbreaks⟩ := leadingBreaks_dropBreaks value
      rw [settled, if_pos rfl]
      cases hrest : dropBreaks value with
      | nil => exact .nothing (h.1 rfl) (hrest ▸ hbreaks)
      | cons c cs => exact .rest (h.1 rfl) (hrest ▸ hbreaks) (List.cons_ne_nil c cs)

/-- A token becomes one thing behind the same tokens. -/
theorem Becomes.unique {before own own' : List Token} {t : Token} (h : Becomes before t own)
    (h' : Becomes before t own') : own = own' := by
  cases h with
  | token hne =>
    cases h' with
    | token => rfl
    | text | rest | nothing => exact absurd rfl (hne _)
  | text hnot =>
    cases h' with
    | token hne => exact absurd rfl (hne _)
    | text => rfl
    | rest harms | nothing harms => exact absurd harms hnot
  | rest harms hbreaks hne =>
    cases h' with
    | token hne => exact absurd rfl (hne _)
    | text hnot => exact absurd harms hnot
    | rest _ hbreaks' => rw [hbreaks.rest_eq, hbreaks'.rest_eq]
    | nothing _ hbreaks' => exact absurd (hbreaks.rest_eq.trans hbreaks'.rest_eq.symm) hne
  | nothing harms hbreaks =>
    cases h' with
    | token hne => exact absurd rfl (hne _)
    | text hnot => exact absurd harms hnot
    | rest _ hbreaks' hne => exact absurd (hbreaks'.rest_eq.trans hbreaks.rest_eq.symm) hne
    | nothing => rfl

/-! ## The normal form -/

/-- The normal form of tokens is what they become behind others, if a region counts behind these. -/
theorem becomesAll_iff {before : List Token} {armed : Bool} (h : armed = true ↔ Arms before)
    {ts out : List Token} : BecomesAll before ts out ↔ out = normalizeFrom armed ts := by
  induction ts generalizing before armed out with
  | nil =>
    constructor
    · rintro ⟨⟩
      rfl
    · rintro rfl
      exact .nil
  | cons t ts ih =>
    rw [normalizeFrom_cons]
    have hnext := arms_concat h t
    constructor
    · rintro (_ | ⟨hfirst, hrest⟩)
      rw [hfirst.unique (becomes_settled h t), (ih hnext).1 hrest]
    · rintro rfl
      exact .cons (becomes_settled h t) ((ih hnext).2 rfl)

/-- Only texts are changed or dropped. -/
theorem filter_normalizeFrom (armed : Bool) (ts : List Token) :
    (normalizeFrom armed ts).filter (!·.isText) = ts.filter (!·.isText) := by
  induction ts generalizing armed with
  | nil => rfl
  | cons t ts ih =>
    have hown : (t.settled armed).filter (!·.isText) = [t].filter (!·.isText) := by
      cases t with
      | pause | scopeStart | scopeEnd | delete => rfl
      | text value =>
        rw [settled]
        split
        · cases dropBreaks value <;> rfl
        · rfl
    rw [normalizeFrom_cons, List.filter_append, hown, ih, ← List.filter_append,
      List.singleton_append]

/-- The part of a token is nothing or one token, and if that is a region, it counts for what is behind. -/
theorem settled_cases (armed : Bool) (t : Token) :
    t.settled armed = [] ∨
      ∃ t', t.settled armed = [t'] ∧ (t'.isDelete = true → t.arms armed = true) := by
  cases t with
  | delete inner => exact .inr ⟨_, rfl, fun _ => rfl⟩
  | pause | scopeStart | scopeEnd =>
    exact .inr ⟨_, rfl, fun hdelete => absurd hdelete Bool.false_ne_true⟩
  | text value =>
    cases armed with
    | false => exact .inr ⟨_, rfl, fun hdelete => absurd hdelete Bool.false_ne_true⟩
    | true =>
      rw [settled, if_pos rfl]
      cases dropBreaks value with
      | nil => exact .inl rfl
      | cons c cs => exact .inr ⟨_, rfl, fun hdelete => absurd hdelete Bool.false_ne_true⟩

/-- A region in the normal form was one before, and counts for the normal form of what is behind it. -/
theorem exists_of_normalizeFrom_eq_append {armed : Bool} {ts front inner out : List Token}
    (h : normalizeFrom armed ts = front ++ .delete inner :: out) :
    ∃ ts', out = normalizeFrom true ts' := by
  induction ts generalizing armed front with
  | nil => exact absurd h.symm (List.append_ne_nil_of_right_ne_nil _ (List.cons_ne_nil _ _))
  | cons t ts ih =>
    rw [normalizeFrom_cons] at h
    obtain hnil | ⟨t', hone, hdelete⟩ := settled_cases armed t
    · rw [hnil, List.nil_append] at h
      exact ih h
    · rw [hone, List.singleton_append] at h
      cases front with
      | nil =>
        obtain ⟨rfl, rfl⟩ := List.cons.inj h
        exact ⟨ts, by rw [hdelete rfl]⟩
      | cons u front => exact ih (List.cons.inj h).2

/-- The first text for which a region counts has something in it, and no line break in front of that. -/
theorem dropBreaks_eq_of_normalizeFrom {ts between out : List Token} {value : Text}
    (h : normalizeFrom true ts = between ++ .text value :: out)
    (hbetween : ∀ t ∈ between, t.isText = false ∧ t.isDelete = false) :
    value ≠ [] ∧ dropBreaks value = value := by
  induction ts generalizing between with
  | nil => exact absurd h.symm (List.append_ne_nil_of_right_ne_nil _ (List.cons_ne_nil _ _))
  | cons t ts ih =>
    rw [normalizeFrom_cons] at h
    cases t with
    | delete inner =>
      cases between with
      | nil => cases h
      | cons u between =>
        obtain ⟨rfl, -⟩ := List.cons.inj h
        cases (hbetween _ List.mem_cons_self).2
    | pause | scopeStart | scopeEnd =>
      cases between with
      | nil => cases h
      | cons u between =>
        exact ih (List.cons.inj h).2 fun t ht => hbetween t (List.mem_cons_of_mem u ht)
    | text given =>
      rw [settled, if_pos rfl, Token.arms, Bool.true_and] at h
      cases hgiven : dropBreaks given with
      | nil =>
        rw [hgiven] at h
        exact ih h hbetween
      | cons c cs =>
        rw [hgiven] at h
        cases between with
        | nil =>
          cases h
          exact ⟨List.cons_ne_nil c cs, hgiven ▸ dropBreaks_dropBreaks given⟩
        | cons u between =>
          obtain ⟨rfl, -⟩ := List.cons.inj h
          cases (hbetween _ List.mem_cons_self).1

/-- **The normal form takes line breaks behind regions away, and nothing else.** It is in normal form
already. All that is no text is kept in order, regions with what they hold. A text behind a region,
with no text but line breaks in between, becomes what is left of it behind the longest text of line
breaks at its start, and is dropped if that is nothing; every other text is kept. So the first text
behind a region that stands in front of the next region is not empty, and begins with no line break. -/
theorem normalize_strips (ts : List Token) :
    normalize (normalize ts) = normalize ts ∧
      (normalize ts).filter (!·.isText) = ts.filter (!·.isText) ∧
      (∀ out, BecomesAll [] ts out ↔ out = normalize ts) ∧
      ∀ front inner between value out,
        normalize ts = front ++ .delete inner :: (between ++ .text value :: out) →
        (∀ t ∈ between, t.isText = false ∧ t.isDelete = false) →
        value ≠ [] ∧ ¬['\n'] <+: value ∧ ¬['\r', '\n'] <+: value := by
  have hnone : false = true ↔ Arms [] := iff_of_false Bool.false_ne_true not_arms_nil
  refine ⟨normalizeFrom_normalizeFrom false ts, filter_normalizeFrom false ts,
    fun out => becomesAll_iff hnone, fun front inner between value out h hbetween => ?_⟩
  obtain ⟨ts', hbehind⟩ := exists_of_normalizeFrom_eq_append h
  obtain ⟨hne, hdrop⟩ := dropBreaks_eq_of_normalizeFrom hbehind.symm hbetween
  exact ⟨hne, not_prefix_of_dropBreaks_eq hdrop (.feed .nil) (List.cons_ne_nil _ _),
    not_prefix_of_dropBreaks_eq hdrop (.returnFeed .nil) (List.cons_ne_nil _ _)⟩

/-- A lone carriage return is no line break; a text of nothing but breaks is dropped, and an empty one
with it. -/
example :
    normalize [.text "\n".toList, .delete [.text "\n".toList], .text "\n\r\n".toList, .text [],
        .scopeStart .bold, .text "\r\n\r\r\n".toList, .text "\n".toList] =
      [.text "\n".toList, .delete [.text "\n".toList], .scopeStart .bold,
        .text "\r\r\n".toList, .text "\n".toList] := by
  decide

end Typist
