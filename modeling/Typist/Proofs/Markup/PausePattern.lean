import Mathlib.Data.List.TakeWhile
import Typist.Markup.Pause
import Typist.Proofs.Text.Lines

/-!
# The pattern of pause tags

What a pause tag looks like, said without a reader: `<pause`, a lead, the word `duration`, blanks,
`=`, blanks, perhaps a quote, digits, perhaps a quote, a tail, perhaps a slash, and `>`. A text can
be taken apart like this in several ways. The one that counts has the longest lead, and among those
the longest run of digits.

* `PauseReading` — one way to take a text apart, well formed by its fields;
* `IsPauseTag` — the texts that can be taken apart, each with the duration that counts;
* `isPauseTag_iff` — the reader `pauseDuration?` finds exactly that duration;
* `isPauseTag_pauseTag_iff` — a canonical tag has the duration that is written in it, and no other.
-/

namespace Typist

open Token

/-- A quote of either kind, or nothing. -/
def IsQuote (q : Text) : Prop :=
  q = [] ∨ q = ['"'] ∨ q = ['\'']

/-- A way to take a text apart as a pause tag. -/
structure PauseReading where
  /-- what stands between `<pause` and the attribute -/
  lead : Text
  /-- the word `duration` -/
  word : Text
  /-- the blanks in front of `=` -/
  before : Text
  /-- the blanks behind `=` -/
  after : Text
  /-- the quote in front of the digits -/
  opening : Text
  digits : Text
  /-- the quote behind the digits -/
  closing : Text
  /-- what else the tag says -/
  tail : Text
  slash : Text
  lead_inside : '>' ∉ lead
  /-- `<pause` is not the beginning of a longer word -/
  name_ends : ∀ c ∈ (lead ++ word).head?, isWordChar c = false
  /-- `duration` is not the end of a longer word -/
  word_begins : isWordChar (lead.getLastD 'e') = false
  word_said : word.map Char.toLower = "duration".toList
  before_blank : ∀ c ∈ before, isBlank c = true
  after_blank : ∀ c ∈ after, isBlank c = true
  opening_quote : IsQuote opening
  digits_ne_nil : digits ≠ []
  digits_digit : ∀ c ∈ digits, c.isDigit = true
  closing_quote : IsQuote closing
  tail_inside : '>' ∉ tail
  slash_said : slash = [] ∨ slash = ['/']

namespace PauseReading

/-- The attribute `duration` up to its digits. -/
def said (p : PauseReading) : Text :=
  p.word ++ (p.before ++ '=' :: (p.after ++ (p.opening ++ p.digits)))

/-- What stands between `<pause` and `>`. -/
def inside (p : PauseReading) : Text :=
  p.lead ++ (p.said ++ (p.closing ++ (p.tail ++ p.slash)))

/-- The text that is taken apart. -/
def source (p : PauseReading) : Text :=
  pauseOpen ++ p.inside ++ ['>']

/-- The duration in milliseconds, held to 64 bits. -/
def millis (p : PauseReading) : UInt64 :=
  saturate64 (decimalValue p.digits)

/-- No other way to take the text apart has a longer lead, or as long a one and more digits. -/
def Counts (p : PauseReading) : Prop :=
  ∀ q : PauseReading, q.source = p.source →
    q.lead.length < p.lead.length ∨
      q.lead.length = p.lead.length ∧ q.digits.length ≤ p.digits.length

end PauseReading

/-- Whether a text is a pause tag of a duration. -/
def IsPauseTag (tag : Text) (millis : UInt64) : Prop :=
  ∃ p : PauseReading, p.source = tag ∧ p.Counts ∧ p.millis = millis

/-! ## The attribute -/

theorem afterAnyCase?_eq_some_iff {p s r : Text} :
    afterAnyCase? p s = some r ↔ ∃ w, s = w ++ r ∧ w.map Char.toLower = p := by
  induction p generalizing s with
  | nil => simp [afterAnyCase?]
  | cons p ps ih =>
    cases s with
    | nil => simp [afterAnyCase?]
    | cons c cs =>
      simp only [afterAnyCase?]
      split
      · rename_i h
        rw [ih]
        constructor
        · rintro ⟨w, rfl, hw⟩
          exact ⟨c :: w, rfl, by simp [hw, h]⟩
        · rintro ⟨w, hs, hw⟩
          cases w with
          | nil => simp at hw
          | cons d w =>
            obtain ⟨rfl, rfl⟩ := List.cons.inj hs
            exact ⟨w, rfl, (List.cons.inj hw).2⟩
      · rename_i h
        refine iff_of_false (by simp) ?_
        rintro ⟨w, hs, hw⟩
        cases w with
        | nil => simp at hw
        | cons d w =>
          obtain ⟨rfl, -⟩ := List.cons.inj hs
          exact h (List.cons.inj hw).1.symm

/-- Where a run ends, a character of another class stands, or nothing. -/
theorem head?_dropWhile_eq_false {p : Char → Bool} {s : Text} :
    ∀ c ∈ (s.dropWhile p).head?, p c = false := by
  intro c hc
  have := List.head?_dropWhile_not p s
  rw [Option.mem_def.1 hc] at this
  simpa using this

/-- A text is a quote, or none, and what `dropQuote` leaves of it. -/
theorem exists_dropQuote (s : Text) : ∃ q, IsQuote q ∧ s = q ++ dropQuote s := by
  fun_cases dropQuote s with
  | case1 cs => exact ⟨['"'], .inr (.inl rfl), rfl⟩
  | case2 cs => exact ⟨['\''], .inr (.inr rfl), rfl⟩
  | case3 => exact ⟨[], .inl rfl, rfl⟩

theorem dropQuote_append {q ds : Text} (hq : IsQuote q) (hne : ds ≠ [])
    (hds : ∀ c ∈ ds, c.isDigit = true) (rest : Text) :
    dropQuote (q ++ (ds ++ rest)) = ds ++ rest := by
  obtain rfl | rfl | rfl := hq
  · cases ds with
    | nil => exact absurd rfl hne
    | cons d ds =>
      have hd := hds d List.mem_cons_self
      have h₁ : d ≠ '"' := fun h => by simp [h] at hd
      have h₂ : d ≠ '\'' := fun h => by simp [h] at hd
      simp [dropQuote, h₁, h₂]
  · rfl
  · rfl

/-- The parts of an attribute `duration` that a text starts with. -/
def StartsAttribute (s ds : Text) : Prop :=
  ∃ word before after opening rest : Text,
    s = word ++ (before ++ '=' :: (after ++ (opening ++ (ds ++ rest)))) ∧
      word.map Char.toLower = "duration".toList ∧ (∀ c ∈ before, isBlank c = true) ∧
      (∀ c ∈ after, isBlank c = true) ∧ IsQuote opening ∧ ds ≠ [] ∧
      (∀ c ∈ ds, c.isDigit = true) ∧ ∀ c ∈ rest.head?, c.isDigit = false

/-- No quote is blank. -/
theorem head?_quote_not_blank {q ds rest : Text} (hq : IsQuote q) (hne : ds ≠ [])
    (hds : ∀ c ∈ ds, c.isDigit = true) : ∀ c ∈ (q ++ (ds ++ rest)).head?, isBlank c = false := by
  have digit (c : Char) (h : c.isDigit = true) : isBlank c = false := by
    simp only [Char.isDigit, Bool.and_eq_true, decide_eq_true_eq, UInt32.le_iff_toNat_le] at h
    have hle : 48 ≤ c.toNat ∧ c.toNat ≤ 57 := h
    simp only [isBlank, Bool.or_eq_false_iff, Bool.and_eq_false_iff, decide_eq_false_iff_not]
    omega
  obtain rfl | rfl | rfl := hq
  · cases ds with
    | nil => exact absurd rfl hne
    | cons d ds => simpa using digit d (hds d List.mem_cons_self)
  · simp; decide
  · simp; decide

/-- What the reader takes an attribute apart into. -/
theorem startsAttribute_of_durationDigits? {s ds : Text} (h : durationDigits? s = some ds) :
    StartsAttribute s ds := by
  unfold durationDigits? at h
  split at h
  · simp at h
  · rename_i rest hrest
    obtain ⟨word, rfl, hword⟩ := afterAnyCase?_eq_some_iff.1 hrest
    split at h
    · rename_i tail htail
      split at h
      · simp at h
      · rename_i d more hds
        obtain rfl := Option.some.inj h
        obtain ⟨opening, hq, hopening⟩ := exists_dropQuote (tail.dropWhile isBlank)
        have hrun := List.takeWhile_append_dropWhile (p := Char.isDigit)
          (l := dropQuote (tail.dropWhile isBlank))
        rw [hds] at hrun
        refine ⟨word, rest.takeWhile isBlank, tail.takeWhile isBlank, opening,
          (dropQuote (tail.dropWhile isBlank)).dropWhile Char.isDigit, ?_, hword,
          fun c hc => List.mem_takeWhile_imp hc, fun c hc => List.mem_takeWhile_imp hc, hq,
          List.cons_ne_nil _ _, fun c hc => ?_, head?_dropWhile_eq_false⟩
        · rw [hrun, ← hopening, List.takeWhile_append_dropWhile, ← htail,
            List.takeWhile_append_dropWhile]
        · rw [← hds] at hc
          exact List.mem_takeWhile_imp hc
    · simp at h

/-- The reader takes each part of an attribute for what it is. -/
theorem StartsAttribute.durationDigits?_eq {s ds : Text} (h : StartsAttribute s ds) :
    durationDigits? s = some ds := by
  obtain ⟨word, before, after, opening, rest, rfl, hword, hbefore, hafter, hq, hne, hds, hrest⟩ := h
  have hbehind : afterAnyCase? "duration".toList
      (word ++ (before ++ '=' :: (after ++ (opening ++ (ds ++ rest))))) =
        some (before ++ '=' :: (after ++ (opening ++ (ds ++ rest)))) :=
    afterAnyCase?_eq_some_iff.2 ⟨word, rfl, hword⟩
  have hsign : (before ++ '=' :: (after ++ (opening ++ (ds ++ rest)))).dropWhile isBlank =
      '=' :: (after ++ (opening ++ (ds ++ rest))) :=
    dropWhile_run hbefore (by simp; decide)
  have hvalue : (after ++ (opening ++ (ds ++ rest))).dropWhile isBlank = opening ++ (ds ++ rest) :=
    dropWhile_run hafter (head?_quote_not_blank hq hne hds)
  have hdigits := takeWhile_run hds hrest
  rw [durationDigits?, hbehind]
  simp only [hsign, hvalue, dropQuote_append hq hne hds, hdigits]
  cases ds with
  | nil => exact absurd rfl hne
  | cons d ds => rfl

theorem durationDigits?_eq_some_iff {s ds : Text} :
    durationDigits? s = some ds ↔ StartsAttribute s ds :=
  ⟨startsAttribute_of_durationDigits?, StartsAttribute.durationDigits?_eq⟩

/-! ## The last attribute -/

/-- In a text behind the character `before`, an attribute with these digits stands behind `lead`. -/
def AttributeBehind (before : Char) (s lead ds : Text) : Prop :=
  ∃ rest, s = lead ++ rest ∧ isWordChar (lead.getLastD before) = false ∧
    durationDigits? rest = some ds

theorem attributeBehind_cons_iff {before c : Char} {cs lead ds : Text} :
    AttributeBehind before (c :: cs) (c :: lead) ds ↔ AttributeBehind c cs lead ds := by
  simp only [AttributeBehind, List.getLastD_cons, List.cons_append, List.cons.injEq, true_and]

/-- An attribute at the very beginning, or one behind the first character. -/
theorem AttributeBehind.cases {before c : Char} {cs lead ds : Text}
    (h : AttributeBehind before (c :: cs) lead ds) :
    (lead = [] ∧ isWordChar before = false ∧ durationDigits? (c :: cs) = some ds) ∨
      ∃ lead', lead = c :: lead' ∧ AttributeBehind c cs lead' ds := by
  cases lead with
  | nil =>
    obtain ⟨rest, hs, hb, hd⟩ := h
    rw [List.nil_append] at hs
    exact .inl ⟨rfl, hb, hs ▸ hd⟩
  | cons d lead =>
    obtain rfl : c = d := by
      obtain ⟨rest, hs, -, -⟩ := h
      exact (List.cons.inj hs).1
    exact .inr ⟨lead, rfl, attributeBehind_cons_iff.1 h⟩

/-- Where the reader finds no attribute, there is none. -/
theorem lastDuration?_eq_none {before : Char} {s : Text} (h : lastDuration? before s = none)
    (lead ds : Text) : ¬AttributeBehind before s lead ds := by
  induction s generalizing before lead with
  | nil =>
    rintro ⟨rest, hs, -, hd⟩
    obtain ⟨-, rfl⟩ := List.append_eq_nil_iff.1 hs.symm
    simp [durationDigits?, afterAnyCase?] at hd
  | cons c cs ih =>
    intro hat
    simp only [lastDuration?] at h
    split at h
    · simp at h
    · rename_i hcs
      obtain ⟨-, hb, hd⟩ | ⟨lead', -, hat'⟩ := hat.cases
      · simp [hb, hd] at h
      · exact ih hcs lead' hat'

/-- The reader finds the digits of the attribute with the longest lead. -/
theorem lastDuration?_eq_some {before : Char} {s ds : Text}
    (h : lastDuration? before s = some ds) :
    ∃ lead, AttributeBehind before s lead ds ∧
      ∀ lead' ds', AttributeBehind before s lead' ds' → lead'.length ≤ lead.length := by
  induction s generalizing before with
  | nil => simp [lastDuration?] at h
  | cons c cs ih =>
    simp only [lastDuration?] at h
    -- what is found further on has the longer lead, and the reader prefers it
    split at h
    · rename_i found hcs
      obtain rfl := Option.some.inj h
      obtain ⟨lead, hat, hmax⟩ := ih hcs
      refine ⟨c :: lead, attributeBehind_cons_iff.2 hat, fun lead' ds' hat' => ?_⟩
      obtain ⟨rfl, -, -⟩ | ⟨lead'', rfl, hat''⟩ := hat'.cases
      · exact Nat.zero_le _
      · exact Nat.succ_le_succ (hmax _ _ hat'')
    · rename_i hcs
      split at h
      · simp at h
      · rename_i hb
        refine ⟨[], ⟨c :: cs, rfl, by simpa using hb, h⟩, fun lead' ds' hat' => ?_⟩
        obtain ⟨rfl, -, -⟩ | ⟨lead'', -, hat''⟩ := hat'.cases
        · exact Nat.le_refl _
        · exact absurd hat'' (lastDuration?_eq_none hcs _ _)

/-! ## Readings and attributes -/

namespace PauseReading

theorem source_eq_iff {p : PauseReading} {inside : Text} :
    p.source = pauseOpen ++ inside ++ ['>'] ↔ p.inside = inside := by
  simp [source]

theorem inside_eq_of_source_eq {p q : PauseReading} (h : p.source = q.source) :
    p.inside = q.inside :=
  source_eq_iff.1 h

/-- The inside of a tag begins with its lead, or else with the word `duration`. -/
theorem head?_inside (p : PauseReading) : p.inside.head? = (p.lead ++ p.word).head? := by
  have hword : p.lead ++ p.word ≠ [] := by
    intro h
    obtain ⟨-, hw⟩ := List.append_eq_nil_iff.1 h
    have := p.word_said
    simp [hw] at this
  obtain ⟨c, cs, h⟩ := List.exists_cons_of_ne_nil hword
  rw [inside, said, List.append_assoc, ← List.append_assoc, h]
  rfl

/-- There is no `>` inside a tag. -/
theorem not_mem_inside (p : PauseReading) : '>' ∉ p.inside := by
  have hquote {q : Text} (hq : IsQuote q) : '>' ∉ q := by
    obtain rfl | rfl | rfl := hq <;> decide
  have hblank {s : Text} (hs : ∀ c ∈ s, isBlank c = true) : '>' ∉ s := fun hc =>
    absurd (hs _ hc) (by decide)
  have hword : '>' ∉ p.word := fun hc => by
    have hmem := List.mem_map_of_mem (f := Char.toLower) hc
    rw [p.word_said] at hmem
    exact absurd hmem (by decide)
  have hdigits : '>' ∉ p.digits := fun hc => absurd (p.digits_digit _ hc) (by decide)
  have hslash : '>' ∉ p.slash := by
    obtain h | h := p.slash_said <;> rw [h] <;> decide
  simp only [inside, said, List.mem_append, List.mem_cons, not_or]
  exact ⟨p.lead_inside, ⟨hword, hblank p.before_blank, by decide, hblank p.after_blank,
    hquote p.opening_quote, hdigits⟩, hquote p.closing_quote, p.tail_inside, hslash⟩

/-- A reading has an attribute behind its lead; the reader may find more digits than it has. -/
theorem attributeBehind (p : PauseReading) :
    ∃ more, AttributeBehind 'e' p.inside p.lead (p.digits ++ more) := by
  let behind := p.closing ++ (p.tail ++ p.slash)
  refine ⟨behind.takeWhile Char.isDigit, p.said ++ behind, rfl, p.word_begins, ?_⟩
  rw [durationDigits?_eq_some_iff]
  refine ⟨p.word, p.before, p.after, p.opening, behind.dropWhile Char.isDigit, ?_, p.word_said,
    p.before_blank, p.after_blank, p.opening_quote, ?_, ?_, head?_dropWhile_eq_false⟩
  · simp [said]
  · simp [p.digits_ne_nil]
  · intro c hc
    obtain hc | hc := List.mem_append.1 hc
    · exact p.digits_digit c hc
    · exact List.mem_takeWhile_imp hc

/-- An attribute in the inside of a tag makes a reading of the tag. -/
theorem exists_of_attributeBehind {inside lead ds : Text} (hin : '>' ∉ inside)
    (hname : ∀ c ∈ inside.head?, isWordChar c = false) (h : AttributeBehind 'e' inside lead ds) :
    ∃ p : PauseReading, p.inside = inside ∧ p.lead = lead ∧ p.digits = ds := by
  obtain ⟨rest, rfl, hb, hd⟩ := h
  obtain ⟨word, before, after, opening, tail, rfl, hword, hbefore, hafter, hq, hne, hds, -⟩ :=
    durationDigits?_eq_some_iff.1 hd
  have hhead : ∀ c ∈ (lead ++ word).head?, isWordChar c = false := by
    intro c hc
    refine hname c ?_
    rw [← List.append_assoc, List.head?_append, Option.mem_def.1 hc]
    rfl
  exact ⟨{
    lead, word, before, after, opening, tail
    digits := ds
    closing := []
    slash := []
    lead_inside := fun hc => hin (List.mem_append_left _ hc)
    name_ends := hhead
    word_begins := hb
    word_said := hword
    before_blank := hbefore
    after_blank := hafter
    opening_quote := hq
    digits_ne_nil := hne
    digits_digit := hds
    closing_quote := .inl rfl
    tail_inside := fun hc => hin (by simp [hc])
    slash_said := .inl rfl }, by simp [inside, said], rfl, rfl⟩

/-- Readings of one text with leads of one length have one lead. -/
theorem lead_eq_of_length_eq {p q : PauseReading} (hin : p.inside = q.inside)
    (hlen : p.lead.length = q.lead.length) : p.lead = q.lead :=
  (List.append_inj hin hlen).1

end PauseReading

/-- The attributes behind one lead have one run of digits. -/
theorem AttributeBehind.digits_unique {before : Char} {s lead ds ds' : Text}
    (h : AttributeBehind before s lead ds) (h' : AttributeBehind before s lead ds') : ds = ds' := by
  obtain ⟨rest, rfl, -, hd⟩ := h
  obtain ⟨rest', hs, -, hd'⟩ := h'
  obtain rfl := List.append_cancel_left hs
  exact Option.some.inj (hd.symm.trans hd')

/-- What `pauseDuration?` asks of the inside of a tag. -/
theorem pauseDuration?_eq_some_iff {inside : Text} {millis : UInt64} :
    pauseDuration? inside = some millis ↔
      (∀ c ∈ inside.head?, isWordChar c = false) ∧
        ∃ ds, lastDuration? 'e' inside = some ds ∧ saturate64 (decimalValue ds) = millis := by
  cases inside with
  | nil => simp [pauseDuration?, lastDuration?]
  | cons c cs =>
    by_cases hc : isWordChar c
    · simp [pauseDuration?, hc]
    · simp [pauseDuration?, hc]

/-- The reader finds the digits of the reading that counts. -/
theorem PauseReading.Counts.lastDuration?_eq {p : PauseReading} (h : p.Counts)
    (hin : '>' ∉ p.inside) : lastDuration? 'e' p.inside = some p.digits := by
  have hname : ∀ c ∈ p.inside.head?, isWordChar c = false := p.head?_inside ▸ p.name_ends
  obtain ⟨more, hat⟩ := p.attributeBehind
  cases hds : lastDuration? 'e' p.inside with
  | none => exact absurd hat (lastDuration?_eq_none hds _ _)
  | some ds =>
    obtain ⟨lead, hlead, hmax⟩ := lastDuration?_eq_some hds
    -- what the reader finds is itself a reading, and has no shorter lead
    obtain ⟨q, hqin, rfl, rfl⟩ := PauseReading.exists_of_attributeBehind hin hname hlead
    have hle := hmax _ _ hat
    have hsource : q.source = p.source := PauseReading.source_eq_iff.2 hqin
    obtain hlt | ⟨heq, hdle⟩ := h q hsource
    · omega
    · have hsame := PauseReading.lead_eq_of_length_eq hqin heq
      have hdigits := (hsame ▸ hlead).digits_unique hat
      -- the reading that counts has no fewer digits than the reader finds
      have hmore : more = [] := by
        have hlen := congrArg List.length hdigits
        rw [List.length_append] at hlen
        exact List.eq_nil_of_length_eq_zero (by omega)
      rw [hdigits, hmore, List.append_nil]

/-- What the reader finds is a reading that counts. -/
theorem exists_counts_of_lastDuration? {inside ds : Text} (hin : '>' ∉ inside)
    (hname : ∀ c ∈ inside.head?, isWordChar c = false)
    (h : lastDuration? 'e' inside = some ds) :
    ∃ p : PauseReading, p.inside = inside ∧ p.digits = ds ∧ p.Counts := by
  obtain ⟨lead, hlead, hmax⟩ := lastDuration?_eq_some h
  obtain ⟨p, hpin, rfl, rfl⟩ := PauseReading.exists_of_attributeBehind hin hname hlead
  refine ⟨p, hpin, rfl, fun q hq => ?_⟩
  have hqin := PauseReading.inside_eq_of_source_eq hq
  obtain ⟨more, hat⟩ := q.attributeBehind
  rw [hqin, hpin] at hat
  obtain hlt | heq := Nat.lt_or_eq_of_le (hmax _ _ hat)
  · exact .inl hlt
  · refine .inr ⟨heq, ?_⟩
    rw [PauseReading.lead_eq_of_length_eq hqin heq] at hat
    rw [hlead.digits_unique hat, List.length_append]
    exact Nat.le_add_right _ _

/-- **The reader of pause tags follows the pattern**: for what stands between `<pause` and the first
`>`, it finds a duration exactly if the pattern fits, and then the one that counts. -/
theorem isPauseTag_iff {inside : Text} {millis : UInt64} (hin : '>' ∉ inside) :
    IsPauseTag (pauseOpen ++ inside ++ ['>']) millis ↔ pauseDuration? inside = some millis := by
  rw [pauseDuration?_eq_some_iff]
  constructor
  · rintro ⟨p, hp, hcounts, hm⟩
    obtain rfl := PauseReading.source_eq_iff.1 hp
    exact ⟨p.head?_inside ▸ p.name_ends, _, hcounts.lastDuration?_eq hin, hm⟩
  · rintro ⟨hname, ds, hds, hm⟩
    obtain ⟨p, hp, rfl, hcounts⟩ := exists_counts_of_lastDuration? hin hname hds
    exact ⟨p, PauseReading.source_eq_iff.2 hp, hcounts, hm⟩

/-! ## Canonical tags -/

/-- Without a `d` there is no attribute `duration`. -/
theorem lastDuration?_eq_none_of_forall {before : Char} {s : Text}
    (h : ∀ c ∈ s, c.toLower ≠ 'd') : lastDuration? before s = none := by
  induction s generalizing before with
  | nil => rfl
  | cons c cs ih =>
    have hd : durationDigits? (c :: cs) = none := by
      have hc := h c List.mem_cons_self
      simp [durationDigits?, afterAnyCase?, Ne.symm hc]
    rw [lastDuration?, ih fun d hd => h d (List.mem_cons_of_mem _ hd)]
    simp [hd]

/-- What stands between `<pause` and `>` in the canonical spelling of a pause. -/
def canonicalInside (millis : UInt64) : Text :=
  ' ' :: ("duration=\"".toList ++ (decimal millis.toNat ++ "\"/".toList))

theorem pauseTag_eq (millis : UInt64) :
    pauseTag millis = pauseOpen ++ canonicalInside millis ++ ['>'] := by
  simp [pauseTag, canonicalInside]

theorem toLower_ne_of_isDigit {c : Char} (h : c.isDigit = true) : c.toLower ≠ 'd' := by
  have hle : c.val ≤ '9'.val := by
    simp only [Char.isDigit, Bool.and_eq_true, decide_eq_true_eq] at h
    exact h.2
  have hlow : c.toLower = c :=
    dif_neg fun hup => absurd (UInt32.le_trans hup.1 hle) (by decide)
  rw [hlow]
  rintro rfl
  exact absurd h (by decide)

theorem not_mem_canonicalInside (millis : UInt64) : '>' ∉ canonicalInside millis := by
  intro h
  have hdigit : '>' ∉ decimal millis.toNat := fun h => absurd (isDigit_of_mem_decimal h) (by decide)
  simp [canonicalInside, hdigit] at h

/-- The reader finds in a canonical tag the duration that is written there. -/
theorem pauseDuration?_canonicalInside (millis : UInt64) :
    pauseDuration? (canonicalInside millis) = some millis := by
  let rest := "uration=\"".toList ++ (decimal millis.toNat ++ "\"/".toList)
  -- The word is read only where it begins, and nothing behind its first letter is a `d`.
  have hrest : lastDuration? 'd' rest = none := by
    refine lastDuration?_eq_none_of_forall fun c hc => ?_
    have hword : ("uration=\"".toList.all fun c => c.toLower != 'd') = true := by decide
    have hquote : ("\"/".toList.all fun c => c.toLower != 'd') = true := by decide
    simp only [rest, List.mem_append] at hc
    obtain hc | hc | hc := hc
    · simpa using List.all_eq_true.1 hword c hc
    · exact toLower_ne_of_isDigit (isDigit_of_mem_decimal hc)
    · simpa using List.all_eq_true.1 hquote c hc
  have hhere : durationDigits? ('d' :: rest) = some (decimal millis.toNat) :=
    durationDigits?_eq_some_iff.2
      ⟨"duration".toList, [], [], ['"'], "\"/".toList, rfl, by decide, by simp, by simp,
        .inr (.inl rfl), decimal_ne_nil _, fun c hc => isDigit_of_mem_decimal hc, by simp⟩
  have hlast : lastDuration? 'e' (canonicalInside millis) = some (decimal millis.toNat) := by
    have h₁ : lastDuration? ' ' ('d' :: rest) = some (decimal millis.toNat) := by
      rw [lastDuration?, hrest]
      exact hhere
    change lastDuration? 'e' (' ' :: 'd' :: rest) = _
    rw [lastDuration?, h₁]
  refine pauseDuration?_eq_some_iff.2 ⟨by simp [canonicalInside]; decide, _, hlast, ?_⟩
  rw [decimalValue_decimal, saturate64_toNat]

/-- A canonical tag has the duration that is written in it, and no other. -/
theorem isPauseTag_pauseTag_iff {written millis : UInt64} :
    IsPauseTag (pauseTag written) millis ↔ millis = written := by
  rw [pauseTag_eq, isPauseTag_iff (not_mem_canonicalInside written),
    pauseDuration?_canonicalInside, Option.some_inj, eq_comm]

end Typist
