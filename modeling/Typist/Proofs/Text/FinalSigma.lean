import Mathlib.Data.List.TakeWhile
import Typist.Text.Lowercase

/-!
# Lower case and what follows

Is the lower-case form of the beginning of a text the beginning of its lower-case form? Each character
but a capital sigma has one small form, wherever it stands, so only sigmas can tell what follows. And
only the last sigma of a beginning can, if all behind it are characters that do not matter for case: with
a cased character in front it ends a word there, and does so in the whole text only if no cased character
follows. The small sigma in its place is then another one, and the two forms part ways.

* `lowercaseBetween` — the lower-case form of a text between others;
* `lowercaseAfter_append` — what the lower-case form of a text is made of;
* `EndsInSigma`, `lowercaseBetween_eq_iff` — where it matters what follows;
* `lowercase_prefix_append_iff` — when the lower-case form of a beginning is a beginning.
-/

namespace Typist

/-! ## Between other texts -/

/-- Whether the first character that matters for case is cased, in a text with another one behind it
that `meetsCased` or not. -/
def meetsCasedBefore (cased : Bool) (s : Text) : Bool :=
  meetsCased s || (s.all caselessRanges.has && cased)

theorem dropWhile_eq_nil_of_all {p : Char → Bool} {s : Text} (h : s.all p = true) :
    s.dropWhile p = [] :=
  List.dropWhile_eq_nil_iff.2 (List.all_eq_true.1 h)

theorem meetsCased_of_all {s : Text} (h : s.all caselessRanges.has = true) :
    meetsCased s = false := by
  rw [meetsCased, dropWhile_eq_nil_of_all h]

/-- Whether a cased character is met is decided in the first part, and behind it if nothing in the first
part matters for case. -/
theorem meetsCased_append (s rest : Text) :
    meetsCased (s ++ rest) = meetsCasedBefore (meetsCased rest) s := by
  rw [meetsCasedBefore]
  by_cases hall : s.all caselessRanges.has = true
  · rw [meetsCased_of_all hall, hall, Bool.true_and, Bool.false_or, meetsCased, List.dropWhile_append,
      dropWhile_eq_nil_of_all hall]
    rfl
  · have hne : s.dropWhile caselessRanges.has ≠ [] := by
      rwa [ne_eq, List.dropWhile_eq_nil_iff, ← List.all_eq_true]
    obtain ⟨c, cs, hcs⟩ := List.exists_cons_of_ne_nil hne
    rw [Bool.eq_false_iff.2 hall, Bool.false_and, Bool.or_false, meetsCased, meetsCased,
      List.dropWhile_append, hcs]
    rfl

/-- The small form of a character with `before` in front of it, nearest first, and something behind it
that meets a cased character or not. -/
def smallFormBetween (before : Text) (cased : Bool) (c : Char) : Text :=
  if c = 'Σ' then (if meetsCased before && !cased then ['ς'] else ['σ']) else smallForm c

/-- A capital sigma has one small form or the other, and both are as long. -/
theorem length_smallFormBetween (before : Text) (cased cased' : Bool) (c : Char) :
    (smallFormBetween before cased c).length = (smallFormBetween before cased' c).length := by
  rw [smallFormBetween, smallFormBetween]
  split_ifs <;> rfl

/-- What follows matters to a capital sigma with a cased character in front. -/
theorem smallFormBetween_eq_iff {before : Text} {cased cased' : Bool} {c : Char} :
    smallFormBetween before cased c = smallFormBetween before cased' c ↔
      (c = 'Σ' → meetsCased before = true → cased = cased') := by
  rw [smallFormBetween, smallFormBetween]
  by_cases hc : c = 'Σ'
  · rw [if_pos hc, if_pos hc]
    cases meetsCased before <;> cases cased <;> cases cased' <;> simp [hc]
  · rw [if_neg hc, if_neg hc]
    exact iff_of_true rfl fun h => absurd h hc

/-- The lower-case form of a text with `before` in front of it, nearest first, and another one behind it
that meets a cased character or not. -/
def lowercaseBetween (before : Text) (cased : Bool) : Text → Text
  | [] => []
  | c :: cs =>
    smallFormBetween before (meetsCasedBefore cased cs) c ++ lowercaseBetween (c :: before) cased cs

/-- A text gets as long in lower case whatever stands behind it. -/
theorem length_lowercaseBetween (before : Text) (cased cased' : Bool) (s : Text) :
    (lowercaseBetween before cased s).length = (lowercaseBetween before cased' s).length := by
  induction s generalizing before with
  | nil => rfl
  | cons c cs ih =>
    rw [lowercaseBetween, lowercaseBetween, List.length_append, List.length_append, ih]
    exact congrArg (· + _) (length_smallFormBetween before _ _ c)

/-- The lower-case form of a text, part by part. -/
theorem lowercaseAfter_append (before s rest : Text) :
    lowercaseAfter before (s ++ rest) =
      lowercaseBetween before (meetsCased rest) s ++ lowercaseAfter (s.reverse ++ before) rest := by
  induction s generalizing before with
  | nil => rfl
  | cons c cs ih =>
    rw [List.cons_append, lowercaseAfter, ih, lowercaseBetween, List.append_assoc, smallFormBetween,
      ← meetsCased_append, List.reverse_cons, List.append_assoc]
    rfl

theorem lowercase_eq (s : Text) : s.lowercase = lowercaseBetween [] false s := by
  have h := lowercaseAfter_append [] s []
  rwa [List.append_nil, lowercaseAfter, List.append_nil] at h

/-! ## The last sigma -/

/-- The last character that matters for case is a capital sigma behind a cased one; in front of the text
is `before`, nearest first. -/
def EndsInSigmaAfter (before s : Text) : Prop :=
  ∃ word rest, s = word ++ 'Σ' :: rest ∧ meetsCased (word.reverse ++ before) = true ∧
    rest.all caselessRanges.has = true

/-- A text ends in a capital sigma that ends a word, characters that do not matter for case aside. -/
def EndsInSigma (s : Text) : Prop :=
  EndsInSigmaAfter [] s

/-- The capital sigma that ends a text is its first character, or that of what follows. -/
theorem endsInSigmaAfter_cons {before cs : Text} {c : Char} :
    EndsInSigmaAfter before (c :: cs) ↔
      (c = 'Σ' ∧ meetsCased before = true ∧ cs.all caselessRanges.has = true) ∨
        EndsInSigmaAfter (c :: before) cs := by
  constructor
  · rintro ⟨word, rest, heq, hcased, hall⟩
    rcases word with _ | ⟨d, word⟩
    · obtain ⟨rfl, rfl⟩ := List.cons.inj heq
      exact .inl ⟨rfl, hcased, hall⟩
    · obtain ⟨rfl, rfl⟩ := List.cons.inj heq
      rw [List.reverse_cons, List.append_assoc] at hcased
      exact .inr ⟨word, rest, rfl, hcased, hall⟩
  · rintro (⟨rfl, hcased, hall⟩ | ⟨word, rest, rfl, hcased, hall⟩)
    · exact ⟨[], cs, rfl, hcased, hall⟩
    · refine ⟨c :: word, rest, rfl, ?_, hall⟩
      rwa [List.reverse_cons, List.append_assoc]

/-- It matters what follows exactly where a text ends in a sigma that ends a word. -/
theorem lowercaseBetween_eq_iff {before s : Text} :
    lowercaseBetween before true s = lowercaseBetween before false s ↔
      ¬EndsInSigmaAfter before s := by
  induction s generalizing before with
  | nil =>
    refine iff_of_true rfl ?_
    rintro ⟨word, rest, heq, -⟩
    exact List.append_ne_nil_of_right_ne_nil word (List.cons_ne_nil _ rest) heq.symm
  | cons c cs ih =>
    have hparts : lowercaseBetween before true (c :: cs) = lowercaseBetween before false (c :: cs) ↔
        smallFormBetween before (meetsCasedBefore true cs) c =
            smallFormBetween before (meetsCasedBefore false cs) c ∧
          lowercaseBetween (c :: before) true cs = lowercaseBetween (c :: before) false cs := by
      rw [lowercaseBetween, lowercaseBetween]
      constructor
      · intro heq
        exact List.append_inj heq (length_smallFormBetween before _ _ c)
      · rintro ⟨hsmall, hrest⟩
        rw [hsmall, hrest]
    rw [hparts, ih, smallFormBetween_eq_iff, endsInSigmaAfter_cons, not_or]
    refine and_congr_left fun _ => ?_
    have hmeets : meetsCasedBefore true cs = meetsCasedBefore false cs ↔
        ¬cs.all caselessRanges.has = true := by
      rw [meetsCasedBefore, meetsCasedBefore, Bool.and_true, Bool.and_false, Bool.or_false]
      by_cases hall : cs.all caselessRanges.has = true
      · rw [hall, meetsCased_of_all hall]
        decide
      · rw [Bool.eq_false_iff.2 hall, Bool.or_false]
        exact iff_of_true rfl Bool.false_ne_true
    rw [hmeets, not_and, not_and]

/-- **The lower-case form of a beginning is a beginning, but for a last sigma.** It is one exactly if
the beginning does not end in a capital sigma that ends a word there and goes on with a cased character
in the whole text. -/
theorem lowercase_prefix_append_iff {s rest : Text} :
    s.lowercase <+: (s ++ rest).lowercase ↔ ¬(EndsInSigma s ∧ meetsCased rest = true) := by
  have hwhole := lowercaseAfter_append [] s rest
  have hlength := length_lowercaseBetween [] false (meetsCased rest) s
  have hequal : s.lowercase <+: (s ++ rest).lowercase ↔
      lowercaseBetween [] false s = lowercaseBetween [] (meetsCased rest) s := by
    rw [lowercase_eq, Text.lowercase, hwhole]
    constructor
    · intro hprefix
      have hpart := List.prefix_append (lowercaseBetween [] (meetsCased rest) s)
        (lowercaseAfter (s.reverse ++ []) rest)
      exact (List.prefix_of_prefix_length_le hprefix hpart (Nat.le_of_eq hlength)).eq_of_length hlength
    · intro heq
      rw [heq]
      exact List.prefix_append _ _
  rw [hequal]
  cases hrest : meetsCased rest with
  | false => exact iff_of_true rfl fun h => Bool.false_ne_true h.2
  | true =>
    rw [eq_comm, lowercaseBetween_eq_iff, EndsInSigma]
    exact not_congr (and_iff_left rfl).symm

end Typist
