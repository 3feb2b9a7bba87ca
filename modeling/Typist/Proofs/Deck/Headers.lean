import Typist.Proofs.Deck.Written
import Typist.Proofs.Text.FinalSigma

/-!
# Lines that begin with the marker

A header opens a slide, whatever stands in front of it and behind it. Whether a line that begins with the
marker is a header is another matter, because the marker and the line are put into lower case each as a
whole. It is one, in whatever spelling the marker stands there and whatever follows it, except for one
case: a marker that ends a word in a capital sigma is not found where the line goes on with the same
word, since the sigma has another small form there. So with the marker `ΟΣ` the line `ΟΣ 1` opens a slide
and the line `ΟΣΑ` does not.

* `OpensSlide`, `IsHeader.opensSlide` — headers open slides;
* `opensSlide_iff` — which of the lines that begin with the marker open slides;
* `not_opensSlide_sigma` — one that does not.
-/

namespace Typist

theorem smallForm_ne_nil (c : Char) : smallForm c ≠ [] := by
  rw [smallForm]
  split_ifs <;> exact List.cons_ne_nil _ _

theorem Text.lowercase_ne_nil {s : Text} (h : s ≠ []) : s.lowercase ≠ [] := by
  obtain ⟨c, cs, rfl⟩ := List.exists_cons_of_ne_nil h
  rw [Text.lowercase, lowercaseAfter]
  apply List.append_ne_nil_of_left_ne_nil
  split_ifs
  · exact List.cons_ne_nil _ _
  · exact List.cons_ne_nil _ _
  · exact smallForm_ne_nil c

namespace Deck

variable {marker raw spelling rest line : Text} {pre post : List Text}

/-- A line of a document opens a slide: behind the slides that the lines in front of it make there is
one with this line, without the blanks around it, as its title. -/
def OpensSlide (marker raw : Text) (pre : List Text) (line : Text) : Prop :=
  ∃ body after, slides marker raw = slides marker (Text.unlines pre) ++ ⟨line.trim, body⟩ :: after

/-- A header opens a slide, wherever it stands. -/
theorem IsHeader.opensSlide (h : IsHeader marker line) (hlines : HasLines raw (pre ++ line :: post)) :
    OpensSlide marker raw pre line := by
  obtain ⟨front, sections, rfl, hfront⟩ := exists_sections marker pre
  obtain ⟨body, sections', rfl, hbody⟩ := exists_sections marker post
  -- the line is the header of a section that goes on up to the next header
  have hcut : Cut marker raw front (sections ++ ⟨line, body, h, hbody⟩ :: sections') := by
    refine ⟨?_, hfront⟩
    rwa [List.flatMap_append, List.flatMap_cons, ← List.append_assoc, Section.lines,
      List.cons_append]
  have hpre : ∀ line' ∈ front ++ sections.flatMap Section.lines, IsLine line' := fun line' hmem =>
    hlines.isLine line' (List.mem_append_left _ hmem)
  refine ⟨Text.unlines body, sections'.map Section.slide, ?_⟩
  rw [hcut.slides_eq, slides_unlines hpre hfront, List.map_append, List.append_assoc]
  rfl

/-- A title is a header. -/
theorem isHeader_title {s : Slide} (hs : s ∈ slides marker raw) (htitle : s.title ≠ []) :
    IsHeader marker s.title := by
  obtain ⟨front, sections, hcut⟩ := exists_cut marker raw
  rw [hcut.slides_eq, untitled] at hs
  rcases List.mem_append.1 hs with hs | hs
  · split at hs
    · rw [List.mem_singleton.1 hs] at htitle
      exact absurd rfl htitle
    · cases hs
  · obtain ⟨t, -, rfl⟩ := List.mem_map.1 hs
    exact isHeader_trim.2 t.isHeader

/-- A line that is not blank opens a slide only if it is a header. -/
theorem OpensSlide.isHeader (h : OpensSlide marker raw pre line) (hline : line.trim ≠ []) :
    IsHeader marker line := by
  obtain ⟨body, after, hslides⟩ := h
  have hmem : ⟨line.trim, body⟩ ∈ slides marker raw := by
    rw [hslides]
    exact List.mem_append_right _ List.mem_cons_self
  exact isHeader_trim.1 (isHeader_title hmem hline)

/-- A line that begins with the marker, in some spelling, is a header unless a sigma keeps it from
being one. -/
theorem isHeader_iff_of_trim_eq (hmarker : marker ≠ [])
    (hspelling : spelling.lowercase = marker.lowercase) (hline : line.trim = spelling ++ rest) :
    IsHeader marker line ↔ ¬(EndsInSigma spelling ∧ meetsCased rest = true) := by
  rw [IsHeader, ← hspelling, hline, lowercase_prefix_append_iff]
  apply and_iff_right
  rw [hspelling]
  exact Text.lowercase_ne_nil hmarker

/-- **A line that begins with the marker opens a slide, but for a last sigma.** In whatever spelling the
marker stands at the beginning of the line, the line opens a slide with itself as the title, unless that
spelling ends a word in a capital sigma and the line goes on with a cased character. -/
theorem opensSlide_iff (hmarker : marker ≠ []) (hlines : HasLines raw (pre ++ line :: post))
    (hspelling : spelling.lowercase = marker.lowercase) (hline : line.trim = spelling ++ rest) :
    OpensSlide marker raw pre line ↔ ¬(EndsInSigma spelling ∧ meetsCased rest = true) := by
  rw [← isHeader_iff_of_trim_eq hmarker hspelling hline]
  constructor
  · intro h
    apply h.isHeader
    rw [hline]
    apply List.append_ne_nil_of_left_ne_nil
    rintro rfl
    exact Text.lowercase_ne_nil hmarker hspelling.symm
  · intro h
    exact h.opensSlide hlines

/-- The marker in another spelling, behind blanks, and with a digit behind the sigma. -/
theorem opensSlide_iff_digit :
    let marker : Text := "οΣ".toList
    let raw : Text := "x\r\n  ΟΣ 1\ny".toList
    let line : Text := "  ΟΣ 1".toList
    marker ≠ [] ∧ HasLines raw ([['x']] ++ line :: [['y']]) ∧
      Text.lowercase "ΟΣ".toList = marker.lowercase ∧ line.trim = "ΟΣ".toList ++ " 1".toList ∧
      EndsInSigma "ΟΣ".toList ∧ OpensSlide marker raw [['x']] line := by
  intro marker raw line
  have hmarker : marker ≠ [] := by decide
  have hlines : HasLines raw ([['x']] ++ line :: [['y']]) := hasLines_iff.2 (by decide +kernel)
  have hspelling : Text.lowercase "ΟΣ".toList = marker.lowercase := by decide +kernel
  have hline : line.trim = "ΟΣ".toList ++ " 1".toList := by decide +kernel
  have hdigit : meetsCased " 1".toList = false := by decide +kernel
  refine ⟨hmarker, hlines, hspelling, hline, ⟨['Ο'], [], rfl, by decide +kernel, rfl⟩, ?_⟩
  apply (opensSlide_iff hmarker hlines hspelling hline).2
  rw [hdigit]
  exact fun h => Bool.false_ne_true h.2

/-- A line that begins with the marker as it is written, and opens no slide. -/
theorem not_opensSlide_sigma :
    let marker : Text := "ΟΣ".toList
    let raw : Text := "ΟΣΑ\nx".toList
    let line : Text := "ΟΣΑ".toList
    marker ≠ [] ∧ IsLine marker ∧ HasLines raw ([] ++ line :: [['x']]) ∧
      line.trim = marker ++ ['Α'] ∧ slides marker raw = [⟨[], raw⟩] ∧
      ¬OpensSlide marker raw [] line := by
  intro marker raw line
  have hmarker : marker ≠ [] := by decide
  have hlines : HasLines raw ([] ++ line :: [['x']]) := hasLines_iff.2 (by decide +kernel)
  have hline : line.trim = marker ++ ['Α'] := by decide +kernel
  have hsigma : EndsInSigma marker := ⟨['Ο'], [], rfl, by decide +kernel, rfl⟩
  have hletter : meetsCased ['Α'] = true := by decide +kernel
  refine ⟨hmarker, ⟨by decide, by decide⟩, hlines, hline, by decide +kernel, ?_⟩
  intro hopens
  have hheader : IsHeader marker line := hopens.isHeader (by rw [hline]; decide)
  exact (isHeader_iff_of_trim_eq hmarker rfl hline).1 hheader ⟨hsigma, hletter⟩

end Deck

end Typist
