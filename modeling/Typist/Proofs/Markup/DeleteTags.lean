import Typist.Markup.Region
import Mathlib.Data.List.Infix

/-!
# Delete tags

Where a region ends is found by a scan over characters. What decides it are the delete tags on the
way alone: the depth to which those in a body nest, and whether the nesting ever balances behind it.

* `deleteTags` — the tags `<delete>` and `</delete>` in a text, in order, and `nesting?`, the depth
  behind them;
* `Apart` — texts of which the first does not end in the middle of a tag, so that the tags in both
  together are those in the one and then those in the other;
* `regionLength?_eq_length_iff` — a region ends behind a body exactly if the tags in the body and
  those behind it say so (`EndsRegion`);
* `Thins` — tags after some closing ones are left out. A body whose own tags balance, or has no
  closing one, ends where it did, even if closing ones behind it are left out (`EndsRegion.thins`).
-/

namespace Typist

open Token

/-- The tags of delete regions. -/
inductive DeleteTag where
  | opening
  | closing
  deriving DecidableEq, Repr

/-- The delete tag that a text starts with. -/
def deleteTag? (s : Text) : Option DeleteTag :=
  if deleteClose.isPrefixOf s then some .closing
  else if deleteOpen.isPrefixOf s then some .opening
  else none

/-- The delete tags in a text, in order. -/
def deleteTags : Text → List DeleteTag
  | [] => []
  | c :: cs => (deleteTag? (c :: cs)).toList ++ deleteTags cs

/-- The depth behind tags that stand at a depth; nothing if one of them closes what is not open. -/
def nesting? : Nat → List DeleteTag → Option Nat
  | depth, [] => some depth
  | depth, .opening :: w => nesting? (depth + 1) w
  | 0, .closing :: _ => none
  | depth + 1, .closing :: w => nesting? depth w

/-! ## Where texts meet -/

/-- No tag runs from the first text into the second: the one is empty or ends a tag, or the other is
empty or starts one. -/
def Apart (s t : Text) : Prop :=
  (s = [] ∨ s.getLast? = some '>') ∨ (t = [] ∨ t.head? = some '<')

theorem apart_nil (s : Text) : Apart s [] :=
  .inr (.inl rfl)

theorem apart_of_head {s t : Text} (h : t.head? = some '<') : Apart s t :=
  .inr (.inr h)

theorem apart_of_getLast {s t : Text} (h : s.getLast? = some '>') : Apart s t :=
  .inl (.inr h)

theorem Apart.tail {c : Char} {cs t : Text} (h : Apart (c :: cs) t) : Apart cs t := by
  obtain (h | h) | h := h
  · simp at h
  · cases cs with
    | nil => exact .inl (.inl rfl)
    | cons d ds => exact .inl (.inr (by simpa using h))
  · exact .inr h

/-- Whether a tag stands at the start of a text does not depend on what the text is apart from. -/
theorem Apart.prefix_append_iff {p s t : Text} (h : Apart s t) (hs : s ≠ [])
    (hopen : '<' ∉ p.tail) (hclose : '>' ∉ p.dropLast) : p <+: s ++ t ↔ p <+: s := by
  refine ⟨fun hp => ?_, fun hp => hp.trans (List.prefix_append _ _)⟩
  obtain hp | ⟨r, rfl⟩ := List.prefix_or_prefix_of_prefix hp (List.prefix_append s t)
  · exact hp
  have hr : r <+: t := (List.prefix_append_right_inj s).1 hp
  cases r with
  | nil => simp
  | cons d ds =>
    exfalso
    obtain (h | h) | (rfl | h) := h
    · exact hs h
    · refine hclose ?_
      rw [List.dropLast_append_of_ne_nil (List.cons_ne_nil d ds)]
      exact List.mem_append_left _ (List.mem_of_getLast? h)
    · simp at hr
    · obtain ⟨t', rfl⟩ := hr
      obtain rfl : d = '<' := by simpa using h
      refine hopen ?_
      rw [List.tail_append_of_ne_nil hs]
      exact List.mem_append_right _ List.mem_cons_self

theorem Apart.deleteTag?_append {s t : Text} (h : Apart s t) (hs : s ≠ []) :
    deleteTag? (s ++ t) = deleteTag? s := by
  have hclose := h.prefix_append_iff (p := deleteClose) hs (by decide) (by decide)
  have hopen := h.prefix_append_iff (p := deleteOpen) hs (by decide) (by decide)
  simp only [deleteTag?, List.isPrefixOf_iff_prefix, hclose, hopen]

/-- The tags in texts that are apart. -/
theorem Apart.deleteTags_append {s t : Text} (h : Apart s t) :
    deleteTags (s ++ t) = deleteTags s ++ deleteTags t := by
  induction s with
  | nil => rfl
  | cons c cs ih =>
    have hc := h.deleteTag?_append (List.cons_ne_nil c cs)
    rw [List.cons_append] at hc ⊢
    rw [deleteTags, deleteTags, hc, ih h.tail, List.append_assoc]

theorem deleteTags_append_of_getLast {s : Text} (h : s.getLast? = some '>') (t : Text) :
    deleteTags (s ++ t) = deleteTags s ++ deleteTags t :=
  (apart_of_getLast h).deleteTags_append

theorem deleteOpen_eq : deleteOpen = '<' :: "delete>".toList := by
  decide

theorem deleteClose_eq : deleteClose = '<' :: "/delete>".toList := by
  decide

/-- Only where a `<` stands, a delete tag does. -/
theorem deleteTags_cons_of_ne {c : Char} (h : c ≠ '<') (cs : Text) :
    deleteTags (c :: cs) = deleteTags cs := by
  have hne : ('<' == c) = false := by simpa using Ne.symm h
  simp [deleteTags, deleteTag?, deleteOpen_eq, deleteClose_eq, List.isPrefixOf, hne]

theorem deleteTags_eq_nil {s : Text} (h : '<' ∉ s) : deleteTags s = [] := by
  induction s with
  | nil => rfl
  | cons c cs ih =>
    obtain ⟨hc, hcs⟩ := List.ne_and_not_mem_of_not_mem_cons h
    rw [deleteTags_cons_of_ne (Ne.symm hc), ih hcs]

theorem deleteTags_deleteOpen : deleteTags deleteOpen = [.opening] := by
  decide

theorem deleteTags_deleteClose : deleteTags deleteClose = [.closing] := by
  decide

/-- A tag in the list is somewhere in the text. -/
theorem infix_of_mem_deleteTags {s : Text} {t : DeleteTag} (h : t ∈ deleteTags s) :
    (match t with | .opening => deleteOpen | .closing => deleteClose) <:+: s := by
  induction s with
  | nil => simp [deleteTags] at h
  | cons c cs ih =>
    rw [deleteTags, List.mem_append] at h
    obtain h | h := h
    · rw [Option.mem_toList, deleteTag?] at h
      split at h
      · rename_i hp
        obtain rfl := Option.some.inj h
        exact (List.isPrefixOf_iff_prefix.1 hp).isInfix
      · split at h
        · rename_i hp
          obtain rfl := Option.some.inj h
          exact (List.isPrefixOf_iff_prefix.1 hp).isInfix
        · simp at h
    · exact (ih h).trans (List.suffix_cons c cs).isInfix

/-! ## Depths -/

theorem nesting?_append (depth : Nat) (v w : List DeleteTag) :
    nesting? depth (v ++ w) = (nesting? depth v).bind (nesting? · w) := by
  fun_induction nesting? depth v with
  | case1 | case3 => rfl
  | case2 depth v ih | case4 depth v ih => simpa [nesting?] using ih

/-- One level further down, tags lead to a depth that is further down. -/
theorem nesting?_succ {depth e : Nat} {w : List DeleteTag} (h : nesting? depth w = some e) :
    nesting? (depth + 1) w = some (e + 1) := by
  fun_induction nesting? depth w with
  | case1 depth => simpa [nesting?] using h
  | case2 depth w ih | case4 depth w ih => exact ih h
  | case3 => simp at h

/-- Without a closing tag, nothing is closed. -/
theorem exists_nesting?_of_not_mem {w : List DeleteTag} (h : .closing ∉ w) (depth : Nat) :
    ∃ e, nesting? depth w = some e ∧ depth ≤ e := by
  induction w generalizing depth with
  | nil => exact ⟨depth, rfl, Nat.le_refl _⟩
  | cons t w ih =>
    obtain ⟨ht, hw⟩ := List.ne_and_not_mem_of_not_mem_cons h
    cases t with
    | closing => exact absurd rfl ht
    | opening =>
      obtain ⟨e, he, hle⟩ := ih hw (depth + 1)
      exact ⟨e, he, by omega⟩

/-- Where nothing is open, tags that open nothing lead on only if there are none. -/
theorem nesting?_zero_append {v w : List DeleteTag} {e : Nat} (hv : .opening ∉ v)
    (h : nesting? 0 (v ++ w) = some e) : v = [] ∧ nesting? 0 w = some e := by
  cases v with
  | nil => exact ⟨rfl, h⟩
  | cons t v =>
    cases t with
    | opening => exact absurd List.mem_cons_self hv
    | closing => cases h

/-! ## The scans -/

/-- The scan for the balancing tag, told by the tags alone. -/
theorem balancedClose?_cons (depth : Nat) (c : Char) (cs : Text) :
    balancedClose? depth (c :: cs) =
      match deleteTag? (c :: cs), depth with
      | some .closing, 0 => some 0
      | some .closing, depth + 1 => (balancedClose? depth cs).map (· + 1)
      | some .opening, depth => (balancedClose? (depth + 1) cs).map (· + 1)
      | none, depth => (balancedClose? depth cs).map (· + 1) := by
  simp only [balancedClose?, deleteTag?]
  split
  · cases depth <;> rfl
  · split <;> rfl

theorem firstClose?_cons (c : Char) (cs : Text) :
    firstClose? (c :: cs) =
      if deleteTag? (c :: cs) = some .closing then some 0 else (firstClose? cs).map (· + 1) := by
  simp only [firstClose?, deleteTag?]
  split
  · rfl
  · split <;> simp

/-- The scan passes over a text that closes nothing but its own regions, and what `depth` counts. -/
theorem balancedClose?_append_of_some {s t : Text} {depth e : Nat} (h : Apart s t)
    (he : nesting? depth (deleteTags s) = some e) :
    balancedClose? depth (s ++ t) = (balancedClose? e t).map (· + s.length) := by
  induction s generalizing depth with
  | nil =>
    obtain rfl := Option.some.inj he
    simp
  | cons c cs ih =>
    have hc := h.deleteTag?_append (List.cons_ne_nil c cs)
    rw [List.cons_append] at hc ⊢
    have later {d : Nat} (hd : nesting? d (deleteTags cs) = some e) :
        (balancedClose? d (cs ++ t)).map (· + 1) = (balancedClose? e t).map (· + (c :: cs).length) := by
      rw [ih h.tail hd, Option.map_map]
      rfl
    rw [deleteTags] at he
    rw [balancedClose?_cons, hc]
    cases htag : deleteTag? (c :: cs) with
    | none => exact later (by simpa [htag] using he)
    | some tag =>
      rw [htag] at he
      cases tag with
      | opening => exact later he
      | closing =>
        cases depth with
        | zero => cases he
        | succ depth => exact later he

/-- The scan ends inside a text that closes more than that. -/
theorem balancedClose?_append_of_none {s t : Text} {depth : Nat} (h : Apart s t)
    (hn : nesting? depth (deleteTags s) = none) :
    ∃ n < s.length, balancedClose? depth (s ++ t) = some n := by
  induction s generalizing depth with
  | nil => simp [deleteTags, nesting?] at hn
  | cons c cs ih =>
    have hc := h.deleteTag?_append (List.cons_ne_nil c cs)
    rw [List.cons_append] at hc ⊢
    have later {d : Nat} (hd : nesting? d (deleteTags cs) = none) :
        ∃ n < (c :: cs).length, (balancedClose? d (cs ++ t)).map (· + 1) = some n := by
      obtain ⟨n, hn, heq⟩ := ih h.tail hd
      exact ⟨n + 1, Nat.succ_lt_succ hn, by rw [heq]; rfl⟩
    rw [deleteTags] at hn
    rw [balancedClose?_cons, hc]
    cases htag : deleteTag? (c :: cs) with
    | none => exact later (by simpa [htag] using hn)
    | some tag =>
      rw [htag] at hn
      cases tag with
      | opening => exact later hn
      | closing =>
        cases depth with
        | zero => exact ⟨0, Nat.zero_lt_succ _, rfl⟩
        | succ depth => exact later hn

/-- The scan for the first closing tag passes over a text without one. -/
theorem firstClose?_append_of_not_mem {s t : Text} (h : Apart s t)
    (hs : .closing ∉ deleteTags s) : firstClose? (s ++ t) = (firstClose? t).map (· + s.length) := by
  induction s with
  | nil => simp
  | cons c cs ih =>
    have hc := h.deleteTag?_append (List.cons_ne_nil c cs)
    rw [deleteTags, List.mem_append, Option.mem_toList, not_or] at hs
    rw [List.cons_append] at hc ⊢
    rw [firstClose?_cons, hc, if_neg hs.1, ih h.tail hs.2, Option.map_map]
    rfl

/-- The scan for the first closing tag ends inside a text with one. -/
theorem firstClose?_append_of_mem {s t : Text} (h : Apart s t) (hs : .closing ∈ deleteTags s) :
    ∃ n < s.length, firstClose? (s ++ t) = some n := by
  induction s with
  | nil => simp [deleteTags] at hs
  | cons c cs ih =>
    have hc := h.deleteTag?_append (List.cons_ne_nil c cs)
    rw [deleteTags, List.mem_append, Option.mem_toList] at hs
    rw [List.cons_append] at hc ⊢
    rw [firstClose?_cons, hc]
    by_cases htag : deleteTag? (c :: cs) = some .closing
    · exact ⟨0, Nat.zero_lt_succ _, if_pos htag⟩
    · obtain ⟨n, hn, heq⟩ := ih h.tail (hs.resolve_left htag)
      exact ⟨n + 1, Nat.succ_lt_succ hn, by rw [if_neg htag, heq]; rfl⟩

/-- A text has no region body exactly if it has no closing tag. -/
theorem regionLength?_eq_none_iff {s : Text} :
    regionLength? s = none ↔ .closing ∉ deleteTags s := by
  have hapart := apart_nil s
  constructor
  · intro h hmem
    obtain ⟨n, -, hn⟩ := firstClose?_append_of_mem hapart hmem
    rw [List.append_nil] at hn
    unfold regionLength? at h
    split at h
    · cases h
    · exact absurd (hn.symm.trans h) (by simp)
  · intro h
    obtain ⟨e, he, -⟩ := exists_nesting?_of_not_mem h 0
    have hb := balancedClose?_append_of_some hapart he
    have hf := firstClose?_append_of_not_mem hapart h
    simp only [List.append_nil] at hb hf
    simp [regionLength?, hb, hf, balancedClose?, firstClose?]

theorem deleteTag?_deleteClose_append (rest : Text) :
    deleteTag? (deleteClose ++ rest) = some .closing :=
  (apart_of_getLast (by decide)).deleteTag?_append (by decide)

/-- At a closing tag both scans end. -/
theorem balancedClose?_deleteClose_append (rest : Text) :
    balancedClose? 0 (deleteClose ++ rest) = some 0 := by
  have htag := deleteTag?_deleteClose_append rest
  rw [deleteClose_eq, List.cons_append] at htag ⊢
  rw [balancedClose?_cons, htag]

theorem firstClose?_deleteClose_append (rest : Text) :
    firstClose? (deleteClose ++ rest) = some 0 := by
  have htag := deleteTag?_deleteClose_append rest
  rw [deleteClose_eq, List.cons_append] at htag ⊢
  rw [firstClose?_cons, if_pos htag]

/-! ## Where a region ends -/

/-- The tags in a body, and those behind the closing tag that follows it, make the region end there:
the body is balanced; or it only opens regions, and behind it they are never all closed. -/
def EndsRegion (body rest : List DeleteTag) : Prop :=
  nesting? 0 body = some 0 ∨
    .closing ∉ body ∧ ∃ e e', nesting? 0 body = some (e + 1) ∧ nesting? e rest = some e'

/-- **Where a region ends** is a matter of the delete tags alone. -/
theorem regionLength?_eq_length_iff {body rest : Text} :
    regionLength? (body ++ (deleteClose ++ rest)) = some body.length ↔
      EndsRegion (deleteTags body) (deleteTags rest) := by
  have hbody : Apart body (deleteClose ++ rest) := apart_of_head rfl
  have hclose : Apart deleteClose rest := apart_of_getLast (by decide)
  cases hd : nesting? 0 (deleteTags body) with
  | none =>
    obtain ⟨n, hn, heq⟩ := balancedClose?_append_of_none hbody hd
    refine iff_of_false ?_ (by simp [EndsRegion, hd])
    rw [regionLength?, heq]
    simpa using Nat.ne_of_lt hn
  | some e =>
    have hb := balancedClose?_append_of_some hbody hd
    cases e with
    | zero =>
      refine iff_of_true ?_ (.inl hd)
      rw [regionLength?, hb, balancedClose?_deleteClose_append]
      simp
    | succ e =>
      have hc : nesting? (e + 1) (deleteTags deleteClose) = some e := by
        rw [deleteTags_deleteClose]
        rfl
      rw [balancedClose?_append_of_some hclose hc] at hb
      cases he : nesting? e (deleteTags rest) with
      | none =>
        -- the nesting balances further on
        obtain ⟨n, -, heq⟩ := balancedClose?_append_of_none (apart_nil rest) he
        rw [List.append_nil] at heq
        refine iff_of_false ?_ (by simp [EndsRegion, hd, he])
        rw [regionLength?, hb, heq]
        have hpos : 0 < deleteClose.length := by decide
        intro hlen
        have : n + deleteClose.length + body.length = body.length := by simpa using hlen
        omega
      | some e' =>
        have hrest := balancedClose?_append_of_some (apart_nil rest) he
        rw [List.append_nil] at hrest
        rw [regionLength?, hb, hrest]
        simp only [balancedClose?, Option.map_none]
        by_cases hmem : .closing ∈ deleteTags body
        · obtain ⟨n, hn, heq⟩ := firstClose?_append_of_mem hbody hmem
          refine iff_of_false ?_ (by simp [EndsRegion, hd, hmem])
          rw [heq]
          simpa using Nat.ne_of_lt hn
        · refine iff_of_true ?_ (.inr ⟨hmem, e, e', hd, he⟩)
          rw [firstClose?_append_of_not_mem hbody hmem,
            firstClose?_deleteClose_append]
          simp

/-- The tags before and behind the end that the reader finds make the region end there. -/
theorem endsRegion_of_regionLength? {s : Text} {n : Nat} (h : regionLength? s = some n) :
    EndsRegion (deleteTags (s.take n)) (deleteTags (s.drop (n + deleteClose.length))) := by
  have hsource := deleteClose_at_regionLength? h
  have hlen : (s.take n).length = n := by
    have := congrArg List.length hsource
    have hpos : 0 < deleteClose.length := by decide
    simp only [List.length_append, List.length_take] at this ⊢
    omega
  rw [← regionLength?_eq_length_iff, ← List.append_assoc, ← hsource, hlen, h]

/-! ## Closing tags left out -/

/-- The second list is the first one without some closing tags. -/
inductive Thins : List DeleteTag → List DeleteTag → Prop
  | nil : Thins [] []
  | keep {w w'} (tag : DeleteTag) (h : Thins w w') : Thins (tag :: w) (tag :: w')
  | drop {w w'} (h : Thins w w') : Thins (.closing :: w) w'

namespace Thins

variable {v v' w w' : List DeleteTag}

theorem refl : ∀ w, Thins w w
  | [] => .nil
  | tag :: w => .keep tag (refl w)

theorem append (hv : Thins v v') (hw : Thins w w') : Thins (v ++ w) (v' ++ w') := by
  induction hv with
  | nil => exact hw
  | keep tag _ ih => exact .keep tag ih
  | drop _ ih => exact .drop ih

/-- A list without opening tags can be left out. -/
theorem nil_of_not_mem (h : .opening ∉ w) : Thins w [] := by
  induction w with
  | nil => exact .nil
  | cons tag w ih =>
    obtain ⟨htag, hw⟩ := List.ne_and_not_mem_of_not_mem_cons h
    cases tag with
    | opening => exact absurd rfl htag
    | closing => exact .drop (ih hw)

theorem mem_of_mem (h : Thins w w') {tag : DeleteTag} (hmem : tag ∈ w') : tag ∈ w := by
  induction h with
  | nil => exact hmem
  | keep _ _ ih =>
    obtain rfl | hmem := List.mem_cons.1 hmem
    · exact List.mem_cons_self
    · exact List.mem_cons_of_mem _ (ih hmem)
  | drop _ ih => exact List.mem_cons_of_mem _ (ih hmem)

/-- Where there is no closing tag, none is left out. -/
theorem eq_of_not_mem (h : Thins w w') (hmem : .closing ∉ w) : w' = w := by
  induction h with
  | nil => rfl
  | keep tag _ ih => rw [ih (List.not_mem_of_not_mem_cons hmem)]
  | drop => exact absurd List.mem_cons_self hmem

/-- With fewer closing tags, from as deep a place or a deeper one, the depth ends no smaller. -/
theorem exists_nesting? (h : Thins w w') {d d' e : Nat} (hd : d ≤ d')
    (he : nesting? d w = some e) : ∃ e', nesting? d' w' = some e' := by
  induction h generalizing d d' with
  | nil => exact ⟨d', rfl⟩
  | keep tag _ ih =>
    cases tag with
    | opening => exact ih (Nat.succ_le_succ hd) he
    | closing =>
      cases d with
      | zero => cases he
      | succ d =>
        obtain ⟨d', rfl⟩ := Nat.exists_eq_succ_of_ne_zero (by omega : d' ≠ 0)
        exact ih (Nat.le_of_succ_le_succ hd) he
  | drop _ ih =>
    cases d with
    | zero => cases he
    | succ d => exact ih (by omega) he

end Thins

/-- A region ends where it did if its body keeps its tags when they balance, and some closing tags
are left out elsewhere. -/
theorem EndsRegion.thins {body body' rest rest' : List DeleteTag} (h : EndsRegion body rest)
    (hbalanced : nesting? 0 body = some 0 → body' = body) (hbody : Thins body body')
    (hrest : Thins rest rest') : EndsRegion body' rest' := by
  obtain hd | ⟨hmem, e, e', hd, he⟩ := h
  · rw [hbalanced hd]
    exact .inl hd
  · obtain ⟨e'', he'⟩ := hrest.exists_nesting? (Nat.le_refl e) he
    rw [hbody.eq_of_not_mem hmem]
    exact .inr ⟨hmem, e, e'', hd, he'⟩

/-- A balanced list that begins with a region is the region's tags, balanced, and then a balanced
list: the early end of a region balances nothing. -/
theorem EndsRegion.balanced {body rest : List DeleteTag} (h : EndsRegion body rest)
    (hd : nesting? 0 (.opening :: (body ++ .closing :: rest)) = some 0) :
    nesting? 0 body = some 0 ∧ nesting? 0 rest = some 0 := by
  rw [nesting?, nesting?_append] at hd
  obtain hb | ⟨-, e, e', hb, he⟩ := h
  · rw [nesting?_succ hb] at hd
    exact ⟨hb, hd⟩
  · rw [nesting?_succ hb] at hd
    have := (nesting?_succ he).symm.trans hd
    simp at this

end Typist
