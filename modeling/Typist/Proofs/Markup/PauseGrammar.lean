import Typist.Proofs.Markup.Reads

/-!
# The grammar of pause tags

Whether a `<pause` starts a pause tag, and which one, told by what stands in the text and by no
order in which a pattern would be tried. The tag ends at the first `>`. The word right behind
`<pause` ends there, and in between stands an attribute `duration` with a number, at the beginning of a
word. Of several such attributes the last one counts, with its whole run of digits.

* `DurationAttribute` — an attribute `duration` in the inside of a tag, told by its parts;
* `lastDuration?_eq_some_iff`, `isSome_lastDuration?_iff` — which attribute the reader finds, and when
  it finds one;
* `tokenize_pauseOpen` — which texts start with a pause tag, its duration, and where it ends.
-/

namespace Typist

open Token

/-! ## Attributes -/

/-- An attribute `duration` with a number, in what stands between `<pause` and the first `>`. -/
structure DurationAttribute (inside : Text) where
  /-- what stands between `<pause` and the attribute -/
  lead : Text
  /-- the word `duration` -/
  word : Text
  /-- the blanks in front of `=` -/
  before : Text
  /-- the blanks behind `=` -/
  after : Text
  quote : Text
  digits : Text
  /-- what else stands in front of the `>` -/
  tail : Text
  source : inside = lead ++ (word ++ (before ++ '=' :: (after ++ (quote ++ (digits ++ tail)))))
  word_said : word.map Char.toLower = "duration".toList
  /-- the character in front of the word, which may be the last one of `<pause`, is of no word -/
  word_begins : ∀ c ∈ (pauseOpen ++ lead).getLast?, isWordChar c = false
  before_blank : ∀ c ∈ before, isBlank c = true
  after_blank : ∀ c ∈ after, isBlank c = true
  quote_one : IsQuote quote
  digits_ne_nil : digits ≠ []
  digits_digit : ∀ c ∈ digits, c.isDigit = true
  /-- the run of digits ends here -/
  digits_end : ∀ c ∈ tail.head?, c.isDigit = false

/-- No attribute of the same inside stands further on. -/
def DurationAttribute.IsLast {inside : Text} (a : DurationAttribute inside) : Prop :=
  ∀ b : DurationAttribute inside, b.lead.length ≤ a.lead.length

/-- In front of what stands behind `<pause` stands an `e`. -/
theorem getLast?_pauseOpen_append (lead : Text) :
    (pauseOpen ++ lead).getLast? = some (lead.getLastD 'e') := by
  rw [List.getLast?_append, List.getLastD_eq_getLast?]
  cases lead.getLast? <;> rfl

/-- Attributes told by their parts are those that the reader finds behind their leads. -/
theorem attributeBehind_iff {inside lead ds : Text} :
    AttributeBehind 'e' inside lead ds ↔
      ∃ a : DurationAttribute inside, a.lead = lead ∧ a.digits = ds := by
  constructor
  · rintro ⟨rest, rfl, hbegins, hrest⟩
    obtain ⟨word, before, after, quote, tail, rfl, hword, hbefore, hafter, hquote, hne, hds, hend⟩ :=
      durationDigits?_eq_some_iff.1 hrest
    have hbegins' : ∀ c ∈ (pauseOpen ++ lead).getLast?, isWordChar c = false := by
      rw [getLast?_pauseOpen_append]
      rintro _ ⟨⟩
      exact hbegins
    exact ⟨⟨lead, word, before, after, quote, ds, tail, rfl, hword, hbegins', hbefore, hafter, hquote,
      hne, hds, hend⟩, rfl, rfl⟩
  · rintro ⟨a, rfl, rfl⟩
    have hbegins : isWordChar (a.lead.getLastD 'e') = false :=
      a.word_begins _ (getLast?_pauseOpen_append a.lead)
    exact ⟨_, a.source, hbegins, durationDigits?_eq_some_iff.2 ⟨a.word, a.before, a.after, a.quote,
      a.tail, rfl, a.word_said, a.before_blank, a.after_blank, a.quote_one, a.digits_ne_nil,
      a.digits_digit, a.digits_end⟩⟩

/-- The reader finds the digits of the last attribute. -/
theorem lastDuration?_eq_some_iff {inside ds : Text} :
    lastDuration? 'e' inside = some ds ↔
      ∃ a : DurationAttribute inside, a.IsLast ∧ a.digits = ds := by
  constructor
  · intro h
    obtain ⟨lead, hat, hmax⟩ := lastDuration?_eq_some h
    obtain ⟨a, rfl, rfl⟩ := attributeBehind_iff.1 hat
    exact ⟨a, fun b => hmax _ _ (attributeBehind_iff.2 ⟨b, rfl, rfl⟩), rfl⟩
  · rintro ⟨a, hlast, rfl⟩
    have hat : AttributeBehind 'e' inside a.lead a.digits := attributeBehind_iff.2 ⟨a, rfl, rfl⟩
    cases hds : lastDuration? 'e' inside with
    | none => exact absurd hat (lastDuration?_eq_none hds _ _)
    | some ds =>
      obtain ⟨lead, hfound, hmax⟩ := lastDuration?_eq_some hds
      obtain ⟨b, rfl, rfl⟩ := attributeBehind_iff.1 hfound
      -- neither of the two stands behind the other, and so they are one
      have hlength : b.lead.length = a.lead.length :=
        Nat.le_antisymm (hlast b) (hmax _ _ hat)
      have hlead : b.lead = a.lead := (List.append_inj (b.source.symm.trans a.source) hlength).1
      have hfound' : AttributeBehind 'e' inside a.lead b.digits := hlead ▸ hfound
      rw [hfound'.digits_unique hat]

/-- The reader finds something if there is any attribute. -/
theorem isSome_lastDuration?_iff {inside : Text} :
    (lastDuration? 'e' inside).isSome ↔ Nonempty (DurationAttribute inside) := by
  constructor
  · intro h
    obtain ⟨ds, hds⟩ := Option.isSome_iff_exists.1 h
    obtain ⟨a, -, -⟩ := lastDuration?_eq_some_iff.1 hds
    exact ⟨a⟩
  · rintro ⟨a⟩
    rw [Option.isSome_iff_ne_none]
    exact fun hnone => lastDuration?_eq_none hnone _ _ (attributeBehind_iff.2 ⟨a, rfl, rfl⟩)

/-! ## Tags -/

/-- What the reader of pause tags takes: the inside up to the first `>`, if that gives a duration. -/
theorem readPause?_eq_some_iff {s inside rest : Text} {millis : UInt64} :
    readPause? s = some (inside, millis, rest) ↔
      s = inside ++ '>' :: rest ∧ '>' ∉ inside ∧ pauseDuration? inside = some millis := by
  constructor
  · intro h
    have hin := (isPauseTag_of_readPause? h).1
    obtain rfl := readPause?_source h
    rw [readPause?_append hin] at h
    obtain ⟨found, hfound, heq⟩ := Option.map_eq_some_iff.1 h
    cases heq
    exact ⟨rfl, hin, hfound⟩
  · rintro ⟨rfl, hin, h⟩
    rw [readPause?_append hin, h]
    rfl

/-- The inside of a tag gives the duration of its last attribute, if no word runs on from `<pause`
into it. -/
theorem pauseDuration?_eq_some_iff_isLast {inside : Text} {millis : UInt64} :
    pauseDuration? inside = some millis ↔
      (∀ c ∈ inside.head?, isWordChar c = false) ∧
        ∃ a : DurationAttribute inside, a.IsLast ∧ saturate64 (decimalValue a.digits) = millis := by
  rw [pauseDuration?_eq_some_iff]
  refine and_congr_right fun _ => ⟨?_, ?_⟩
  · rintro ⟨ds, hds, hmillis⟩
    obtain ⟨a, hlast, rfl⟩ := lastDuration?_eq_some_iff.1 hds
    exact ⟨a, hlast, hmillis⟩
  · rintro ⟨a, hlast, hmillis⟩
    exact ⟨a.digits, lastDuration?_eq_some_iff.2 ⟨a, hlast, rfl⟩, hmillis⟩

/-- The character behind `<pause` is the first one inside the tag, or its `>`. -/
theorem forall_head?_append_iff (inside rest : Text) :
    (∀ c ∈ (inside ++ '>' :: rest).head?, isWordChar c = false) ↔
      ∀ c ∈ inside.head?, isWordChar c = false := by
  cases inside with
  | nil =>
    refine iff_of_true ?_ nofun
    rintro _ ⟨⟩
    decide
  | cons c cs => exact Iff.rfl

theorem toNat_saturate64 (n : Nat) : (saturate64 n).toNat = min n (UInt64.size - 1) := by
  have hlt : min n (UInt64.size - 1) < UInt64.size :=
    Nat.lt_of_le_of_lt (Nat.min_le_right _ _) (by decide)
  exact UInt64.toNat_ofNat_of_lt' hlt

/-- A `<pause` starts a pause tag, or is a stray one. -/
theorem nextPiece?_pauseOpen (s : Text) :
    nextPiece? (pauseOpen ++ s) =
      match readPause? s with
      | some (inside, millis, rest) => some (.pause inside millis, rest)
      | none => some (.strayPause, pauseOpen.tail ++ s) := by
  have h := nextPiece?_text .pause s
  rw [Marker.piece] at h
  refine h.trans ?_
  cases readPause? s <;> rfl

theorem nextPiece?_eq_pause_iff {s inside rest : Text} {millis : UInt64} :
    nextPiece? (pauseOpen ++ s) = some (.pause inside millis, rest) ↔
      readPause? s = some (inside, millis, rest) := by
  rw [nextPiece?_pauseOpen]
  cases readPause? s with
  | none => simp
  | some found => simp [Prod.ext_iff, and_assoc]

/-- **Which texts start with a pause tag.** A text that starts with `<pause` does so exactly if it has
a `>` in it, the character right behind `<pause` is of no word, and an attribute `duration` with a
number stands in front of the first `>`. The duration is the number of the last such attribute, held to
64 bits, and reading goes on right behind that `>`. In every other case the `<` alone is text, and
reading goes on behind it. -/
theorem tokenize_pauseOpen (s : Text) :
    let u := pauseOpen ++ s
    ((∃ inside millis rest, nextPiece? u = some (.pause inside millis, rest)) ↔
        ∃ inside rest, s = inside ++ '>' :: rest ∧ '>' ∉ inside ∧
          (∀ c ∈ s.head?, isWordChar c = false) ∧ Nonempty (DurationAttribute inside)) ∧
      (∀ inside millis rest, nextPiece? u = some (.pause inside millis, rest) →
        s = inside ++ '>' :: rest ∧ '>' ∉ inside ∧ tokenize u = .pause millis :: tokenize rest ∧
          ∃ a : DurationAttribute inside, a.IsLast ∧
            millis.toNat = min (decimalValue a.digits) (UInt64.size - 1)) ∧
      ((∀ inside millis rest, nextPiece? u ≠ some (.pause inside millis, rest)) →
        nextPiece? u = some (.strayPause, u.tail) ∧
          tokenize u = .text ['<'] :: tokenize u.tail) := by
  intro u
  refine ⟨⟨?_, ?_⟩, ?_, ?_⟩
  · rintro ⟨inside, millis, rest, h⟩
    obtain ⟨rfl, hin, hduration⟩ := readPause?_eq_some_iff.1 (nextPiece?_eq_pause_iff.1 h)
    obtain ⟨hhead, a, -, -⟩ := pauseDuration?_eq_some_iff_isLast.1 hduration
    exact ⟨inside, rest, rfl, hin, (forall_head?_append_iff inside rest).2 hhead, ⟨a⟩⟩
  · rintro ⟨inside, rest, rfl, hin, hhead, ha⟩
    obtain ⟨ds, hds⟩ := Option.isSome_iff_exists.1 (isSome_lastDuration?_iff.2 ha)
    have hduration : pauseDuration? inside = some (saturate64 (decimalValue ds)) :=
      pauseDuration?_eq_some_iff.2 ⟨(forall_head?_append_iff inside rest).1 hhead, ds, hds, rfl⟩
    exact ⟨inside, _, rest,
      nextPiece?_eq_pause_iff.2 (readPause?_eq_some_iff.2 ⟨rfl, hin, hduration⟩)⟩
  · intro inside millis rest h
    obtain ⟨hs, hin, hduration⟩ := readPause?_eq_some_iff.1 (nextPiece?_eq_pause_iff.1 h)
    obtain ⟨-, a, hlast, rfl⟩ := pauseDuration?_eq_some_iff_isLast.1 hduration
    exact ⟨hs, hin, tokenize_eq_cons h, a, hlast, toNat_saturate64 _⟩
  · intro hno
    have hnone : readPause? s = none := by
      cases hread : readPause? s with
      | none => rfl
      | some found => exact absurd (nextPiece?_eq_pause_iff.2 hread) (hno _ _ _)
    have hstray : nextPiece? u = some (.strayPause, u.tail) := by
      rw [nextPiece?_pauseOpen, hnone]
      rfl
    exact ⟨hstray, tokenize_eq_cons hstray⟩

/-- The last attribute that is one counts: no other word ends in it, and it has a number. -/
example :
    nextPiece? "<pause\u00a0DURATION = '20'30 kind-duration=\"7x duration= >1".toList =
      some (.pause "\u00a0DURATION = '20'30 kind-duration=\"7x duration= ".toList 7,
        ['1']) := by
  decide +kernel

end Typist
