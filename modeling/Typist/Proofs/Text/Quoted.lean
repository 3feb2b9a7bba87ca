import Typist.Proofs.Text.Lines
import Typist.Text.Quoted

/-!
# Where a quoted text ends, and what it says

Between the quotes each character stands in one of three ways, and two characters never stand alike: one
can tell from the left what the first character is and where the next one begins. The quote that ends the
text is none of them. So a quoted text says what was quoted, and it does so whatever comes behind it.

* `QuotedAs`, `quotedAs_quotedChar` — the three ways in which a character stands between quotes;
* `QuotedAs.append_inj`, `quoted_append_inj` — a quoted character, and a quoted text, at the beginning of
  a longer text.
-/

namespace Typist

/-- Two texts that go on alike up to a mark, which they come to for the first time there. -/
theorem Text.append_cons_inj {mark : Char} {s t x y : Text} (hs : mark ∉ s) (ht : mark ∉ t)
    (h : s ++ mark :: x = t ++ mark :: y) : s = t ∧ x = y := by
  have hpieces := congrArg (pieces mark) h
  rw [pieces_append_cons hs, pieces_append_cons ht] at hpieces
  obtain rfl := (List.cons.inj hpieces).1
  exact ⟨rfl, (List.cons.inj (List.append_cancel_left h)).2⟩

/-- The characters that are given by a letter, each with its letter. -/
def shortEscapes : List (Char × Char) :=
  [('"', '"'), ('\\', '\\'), ('\n', 'n'), ('\r', 'r'), ('\t', 't'), ('\x00', '0')]

/-- The ways in which a character stands between quotes. -/
inductive QuotedAs (c : Char) : Text → Prop
  | itself (hquote : c ≠ '"') (hback : c ≠ '\\') : QuotedAs c [c]
  | letter {e : Char} (h : (c, e) ∈ shortEscapes) : QuotedAs c ['\\', e]
  | code : QuotedAs c ('\\' :: 'u' :: '{' :: (hexadecimal hexDigits c.toNat ++ ['}']))

theorem quotedAs_quotedChar (c : Char) : QuotedAs c (quotedChar c) := by
  unfold quotedChar
  split_ifs with hquote hback
  iterate 6
    · subst_vars
      exact .letter (by decide)
  · exact .itself hquote hback
  · exact .code

/-- A letter is given for one character only. -/
theorem shortEscapes_inj {c d e : Char} (hc : (c, e) ∈ shortEscapes) (hd : (d, e) ∈ shortEscapes) :
    c = d := by
  have key : ∀ p ∈ shortEscapes, ∀ q ∈ shortEscapes, p.2 = q.2 → p.1 = q.1 := by decide
  exact key _ hc _ hd rfl

theorem not_mem_shortEscapes_u {c : Char} : (c, 'u') ∉ shortEscapes := by
  have key : ∀ p ∈ shortEscapes, p.2 ≠ 'u' := by decide
  exact fun h => key _ h rfl

theorem hexadecimal_append_inj {n m : Nat} {x y : Text}
    (h : hexadecimal hexDigits n ++ '}' :: x = hexadecimal hexDigits m ++ '}' :: y) :
    n = m ∧ x = y := by
  have hend (k : Nat) : '}' ∉ hexadecimal hexDigits k := fun hmem =>
    absurd (mem_hexDigits_of_mem_hexadecimal hmem) (by decide)
  obtain ⟨hdigits, hrest⟩ := Text.append_cons_inj (hend n) (hend m) h
  have hread := congrArg hexNumber? hdigits
  rw [hexNumber?_hexadecimal, hexNumber?_hexadecimal] at hread
  exact ⟨Option.some.inj hread, hrest⟩

/-- No character stands as a bare quote. -/
theorem QuotedAs.ne_quote_cons {c : Char} {q x y : Text} (h : QuotedAs c q) : q ++ x ≠ '"' :: y := by
  cases h with
  | itself hquote _ => exact fun heq => hquote (List.cons.inj heq).1
  | letter | code => exact fun heq => absurd (List.cons.inj heq).1 (by decide)

/-- Two characters at the beginning of one text between quotes are the same, and end there alike. -/
theorem QuotedAs.append_inj {c d : Char} {q r x y : Text} (hc : QuotedAs c q) (hd : QuotedAs d r)
    (h : q ++ x = r ++ y) : c = d ∧ x = y := by
  cases hc with
  | itself _ hback =>
    cases hd with
    | itself => exact List.cons.inj h
    | letter | code => exact absurd (List.cons.inj h).1 hback
  | letter hc =>
    cases hd with
    | itself _ hback => exact absurd (List.cons.inj h).1.symm hback
    | letter hd =>
      obtain ⟨rfl, hrest⟩ := List.cons.inj (List.cons.inj h).2
      exact ⟨shortEscapes_inj hc hd, hrest⟩
    | code =>
      obtain ⟨rfl, -⟩ := List.cons.inj (List.cons.inj h).2
      exact absurd hc not_mem_shortEscapes_u
  | code =>
    cases hd with
    | itself _ hback => exact absurd (List.cons.inj h).1.symm hback
    | letter hd =>
      obtain ⟨rfl, -⟩ := List.cons.inj (List.cons.inj h).2
      exact absurd hd not_mem_shortEscapes_u
    | code =>
      have hcode : hexadecimal hexDigits c.toNat ++ '}' :: x =
          hexadecimal hexDigits d.toNat ++ '}' :: y := by simpa using h
      obtain ⟨hnat, hrest⟩ := hexadecimal_append_inj hcode
      exact ⟨Char.toNat_inj.1 hnat, hrest⟩

/-- Two quoted texts at the beginning of one text say the same, and end there alike. -/
theorem quoted_append_inj {s t x y : Text} (h : quoted s ++ x = quoted t ++ y) : s = t ∧ x = y := by
  replace h : s.flatMap quotedChar ++ '"' :: x = t.flatMap quotedChar ++ '"' :: y := by
    simpa [quoted] using h
  induction s generalizing t with
  | nil =>
    cases t with
    | nil => exact ⟨rfl, (List.cons.inj h).2⟩
    | cons d t =>
      rw [List.flatMap_cons, List.append_assoc] at h
      exact absurd h.symm (quotedAs_quotedChar d).ne_quote_cons
  | cons c s ih =>
    rw [List.flatMap_cons, List.append_assoc] at h
    cases t with
    | nil => exact absurd h (quotedAs_quotedChar c).ne_quote_cons
    | cons d t =>
      rw [List.flatMap_cons, List.append_assoc] at h
      obtain ⟨rfl, hrest⟩ := (quotedAs_quotedChar c).append_inj (quotedAs_quotedChar d) h
      obtain ⟨rfl, hend⟩ := ih hrest
      exact ⟨rfl, hend⟩

end Typist
