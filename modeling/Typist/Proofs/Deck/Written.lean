import Typist.Proofs.Deck.Sections

/-!
# Slides written back

The slides of a document can be written as a document again: each title on a line of its own with the
body behind it, and the body alone where there is no title. This document need not be the one the slides
come from — its line breaks are line feeds, its headers are trimmed, and blank lines in front are gone —
but it has the same slides. A section without lines is written with an empty one, which gives the same
body.

* `Slide.written`, `Deck.written` — slides as a document;
* `Section.rewritten`, `Cut.written` — where the written document is to be cut;
* `Cut.slides_body` — the body of a slide has no header in it;
* `slides_written` — the written document has the same slides.
-/

namespace Typist

/-- A slide as a part of a document. -/
def Slide.written (s : Slide) : Text :=
  if s.title = [] then s.body else s.title ++ '\n' :: s.body

namespace Deck

/-- Slides as a document, a line feed between each two. -/
def written (slides : List Slide) : Text :=
  Text.unlines (slides.map Slide.written)

/-! ## Lines -/

theorem HasLines.isLine {raw : Text} {lines : List Text} (h : HasLines raw lines) :
    ∀ line ∈ lines, IsLine line := by
  induction h with
  | last h => exact List.forall_mem_singleton.2 h
  | more h _ _ ih => exact List.forall_mem_cons.2 ⟨h, ih⟩

theorem unifyBreaks_of_not_mem {s : Text} (h : '\r' ∉ s) : unifyBreaks s = s := by
  have hs := unifyBreaks_append h []
  rwa [unifyBreaks, List.append_nil] at hs

/-- Lines that are put together are those of the document that they make. -/
theorem hasLines_unlines {lines : List Text} (hne : lines ≠ []) (h : ∀ line ∈ lines, IsLine line) :
    HasLines (Text.unlines lines) lines := by
  have hreturn : '\r' ∉ Text.unlines lines :=
    Text.not_mem_unlines (by decide) fun line hline => (h line hline).2
  rw [hasLines_iff, unifyBreaks_of_not_mem hreturn]
  exact (Text.lines_unlines hne fun line hline => (h line hline).1).symm

theorem isLine_nil : IsLine [] :=
  ⟨List.not_mem_nil, List.not_mem_nil⟩

theorem IsLine.trim {line : Text} (h : IsLine line) : IsLine line.trim :=
  ⟨fun hmem => h.1 ((Text.trim_infix line).subset hmem),
    fun hmem => h.2 ((Text.trim_infix line).subset hmem)⟩

/-! ## Headers -/

variable {marker raw : Text} {front : List Text} {sections : List (Section marker)}

/-- A header is one without the blanks around it. -/
theorem isHeader_trim {line : Text} : IsHeader marker line.trim ↔ IsHeader marker line := by
  rw [IsHeader, IsHeader, Text.trim_trim]

theorem not_isHeader_nil : ¬IsHeader marker [] := by
  rintro ⟨hne, hprefix⟩
  exact hne (List.prefix_nil.1 hprefix)

/-- There is something in a header besides blanks. -/
theorem IsHeader.trim_ne_nil {line : Text} (h : IsHeader marker line) : line.trim ≠ [] := by
  intro hnil
  rw [← isHeader_trim, hnil] at h
  exact not_isHeader_nil h

/-- An empty document has no slides. -/
theorem slides_nil (marker : Text) : slides marker [] = [] := by
  have hcut : Cut marker [] [[]] [] :=
    ⟨.last isLine_nil, List.forall_mem_singleton.2 not_isHeader_nil⟩
  exact hcut.slides_eq

/-- The slides of a document that is made of lines, cut at the headers among them. -/
theorem slides_unlines (hline : ∀ line ∈ front ++ sections.flatMap Section.lines, IsLine line)
    (hfront : ∀ line ∈ front, ¬IsHeader marker line) :
    slides marker (Text.unlines (front ++ sections.flatMap Section.lines)) =
      untitled front ++ sections.map Section.slide := by
  by_cases hne : front ++ sections.flatMap Section.lines = []
  · obtain ⟨rfl, hsections⟩ := List.append_eq_nil_iff.1 hne
    rcases sections with _ | ⟨s, sections⟩
    · exact slides_nil marker
    · cases hsections
  · have hcut : Cut marker _ front sections := ⟨hasLines_unlines hne hline, hfront⟩
    exact hcut.slides_eq

namespace Section

/-- The section that the slide of a section is written as. A section without lines gets an empty one. -/
def rewritten (s : Section marker) : Section marker where
  header := s.header.trim
  body := if s.body = [] then [[]] else s.body
  isHeader := isHeader_trim.2 s.isHeader
  no_header := by
    split
    · exact List.forall_mem_singleton.2 not_isHeader_nil
    · exact s.no_header

theorem unlines_rewritten_body (s : Section marker) :
    Text.unlines s.rewritten.body = Text.unlines s.body := by
  rcases s with ⟨header, _ | ⟨line, body⟩, _, _⟩
  · rfl
  · rfl

theorem rewritten_body_ne_nil (s : Section marker) : s.rewritten.body ≠ [] := by
  rw [rewritten]
  split
  · exact List.cons_ne_nil _ _
  · assumption

/-- The section becomes the same slide. -/
theorem slide_rewritten (s : Section marker) : s.rewritten.slide = s.slide := by
  rw [slide, slide, unlines_rewritten_body, rewritten, Text.trim_trim]

/-- The slide is written as the lines of this section. -/
theorem written_slide (s : Section marker) :
    s.slide.written = Text.unlines s.rewritten.lines := by
  rw [Slide.written, if_neg (show s.slide.title ≠ [] from s.isHeader.trim_ne_nil), lines,
    Text.unlines_cons s.rewritten_body_ne_nil, unlines_rewritten_body]
  rfl

/-- There are no more line breaks in it than in the section. -/
theorem isLine_rewritten {s : Section marker} (h : ∀ line ∈ s.lines, IsLine line) :
    ∀ line ∈ s.rewritten.lines, IsLine line := by
  obtain ⟨hheader, hbody⟩ := List.forall_mem_cons.1 h
  have hbody' : ∀ line ∈ s.rewritten.body, IsLine line := by
    rw [rewritten]
    split
    · exact List.forall_mem_singleton.2 isLine_nil
    · exact hbody
  exact List.forall_mem_cons.2 ⟨hheader.trim, hbody'⟩

end Section

/-! ## Writing back -/

/-- The lines in front of the first header that come into a slide: all of them, or none. -/
def keptFront (front : List Text) : List Text :=
  if ∃ line ∈ front, line.isBlank = false then front else []

theorem keptFront_sublist (front : List Text) : (keptFront front).Sublist front := by
  rw [keptFront]
  split
  · exact List.Sublist.refl front
  · exact List.nil_sublist front

theorem untitled_keptFront (front : List Text) : untitled (keptFront front) = untitled front := by
  by_cases hkept : ∃ line ∈ front, line.isBlank = false
  · rw [keptFront, if_pos hkept]
  · rw [keptFront, if_neg hkept, untitled, untitled, if_neg hkept, if_neg]
    rintro ⟨line, hmem, -⟩
    cases hmem

/-- The lines of the written document, if it has any: those in front that are kept, and those of the
sections that the slides are written as. -/
def writtenLines (front : List Text) (sections : List (Section marker)) : List Text :=
  keptFront front ++ (sections.map Section.rewritten).flatMap Section.lines

theorem Cut.written_eq (h : Cut marker raw front sections) :
    written (slides marker raw) = Text.unlines (writtenLines front sections) := by
  have hblocks : (sections.map Section.slide).map Slide.written =
      (sections.map fun s => s.rewritten.lines).map Text.unlines := by
    rw [List.map_map, List.map_map]
    exact List.map_congr_left fun s _ => s.written_slide
  have hfilled : ∀ ls ∈ sections.map (fun s => s.rewritten.lines), ls ≠ [] := by
    intro ls hls
    obtain ⟨s, -, rfl⟩ := List.mem_map.1 hls
    exact List.cons_ne_nil _ _
  rw [written, h.slides_eq, List.map_append, hblocks, writtenLines, List.flatMap_map,
    List.flatMap_def, untitled, keptFront]
  split
  · rename_i hkept
    have hne : front ≠ [] := by
      obtain ⟨line, hmem, -⟩ := hkept
      exact List.ne_nil_of_mem hmem
    exact Text.unlines_map_unlines (List.forall_mem_cons.2 ⟨hne, hfilled⟩)
  · exact Text.unlines_map_unlines hfilled

theorem Cut.isLine_writtenLines (h : Cut marker raw front sections) :
    ∀ line ∈ writtenLines front sections, IsLine line := by
  have hlines := h.lines.isLine
  intro line hline
  rcases List.mem_append.1 hline with hline | hline
  · exact hlines line (List.mem_append_left _ ((keptFront_sublist front).subset hline))
  · obtain ⟨s', hs', hline⟩ := List.mem_flatMap.1 hline
    obtain ⟨s, hs, rfl⟩ := List.mem_map.1 hs'
    apply Section.isLine_rewritten _ line hline
    intro line' hline'
    exact hlines line' (List.mem_append_right _ (List.mem_flatMap.2 ⟨s, hs, hline'⟩))

theorem Cut.reads_back (h : Cut marker raw front sections) :
    slides marker (written (slides marker raw)) = slides marker raw := by
  have hfront : ∀ line ∈ keptFront front, ¬IsHeader marker line := fun line hmem =>
    h.no_header line ((keptFront_sublist front).subset hmem)
  rw [h.written_eq, writtenLines, slides_unlines h.isLine_writtenLines hfront, h.slides_eq,
    untitled_keptFront, List.map_map]
  exact congrArg (untitled front ++ ·) (List.map_congr_left fun s _ => s.slide_rewritten)

/-! ## Bodies -/

/-- A body is made of lines that are no headers. -/
theorem Cut.exists_body (h : Cut marker raw front sections) {s : Slide}
    (hs : s ∈ slides marker raw) :
    ∃ lines, s.body = Text.unlines lines ∧ (∀ line ∈ lines, IsLine line) ∧
      ∀ line ∈ lines, ¬IsHeader marker line := by
  have hlines := h.lines.isLine
  rw [h.slides_eq, untitled] at hs
  rcases List.mem_append.1 hs with hs | hs
  · split at hs
    · obtain rfl := List.mem_singleton.1 hs
      exact ⟨front, rfl, fun line hmem => hlines line (List.mem_append_left _ hmem), h.no_header⟩
    · cases hs
  · obtain ⟨t, ht, rfl⟩ := List.mem_map.1 hs
    refine ⟨t.body, rfl, fun line hmem => hlines line (List.mem_append_right _ ?_), t.no_header⟩
    exact List.mem_flatMap.2 ⟨t, ht, List.mem_cons_of_mem t.header hmem⟩

/-- The body of a slide is a document without headers. -/
theorem exists_cut_body {s : Slide} (hs : s ∈ slides marker raw) :
    ∃ lines, s.body = Text.unlines lines ∧ Cut marker s.body lines [] := by
  obtain ⟨front, sections, hcut⟩ := exists_cut marker raw
  obtain ⟨lines, hbody, hline, hheader⟩ := hcut.exists_body hs
  rcases eq_or_ne lines [] with rfl | hne
  · refine ⟨[[]], hbody, ?_, List.forall_mem_singleton.2 not_isHeader_nil⟩
    rw [hbody]
    exact .last isLine_nil
  · refine ⟨lines, hbody, ?_, hheader⟩
    rw [hbody, List.flatMap_nil, List.append_nil]
    exact hasLines_unlines hne hline

/-- **Slides that are written back are the same slides.** The document that they make, a line feed
between each two, each title on a line of its own in front of the body, has these slides again. And the
body of each of them has no header in it: by itself it is one slide without a title, or none if there
are only blanks in it. -/
theorem slides_written (marker raw : Text) :
    slides marker (written (slides marker raw)) = slides marker raw ∧
      ∀ s ∈ slides marker raw,
        (∀ line ∈ (unifyBreaks s.body).lines, ¬IsHeader marker line) ∧
          slides marker s.body = if s.body.isBlank then [] else [⟨[], s.body⟩] := by
  constructor
  · obtain ⟨front, sections, hcut⟩ := exists_cut marker raw
    exact hcut.reads_back
  · intro s hs
    obtain ⟨lines, hbody, hcut⟩ := exists_cut_body hs
    have hlines := hasLines_iff.1 hcut.lines
    rw [List.flatMap_nil, List.append_nil] at hlines
    constructor
    · rw [← hlines]
      exact hcut.no_header
    · rw [hcut.slides_eq, List.map_nil, List.append_nil, untitled_eq, ← Text.isBlank_unlines, ← hbody]

/-- A document with breaks of all kinds, blank lines in front, a header right behind another one, and a
body that ends in a line break. -/
theorem slides_written_breaks :
    let raw : Text := " \r\r\nslide A\r SLIDE b \r\n\n x\r\r\n".toList
    let marker : Text := "Slide".toList
    let s : Slide := ⟨"SLIDE b".toList, "\n x\n\n".toList⟩
    slides marker (written (slides marker raw)) = slides marker raw ∧
      written (slides marker raw) = "slide A\n\nSLIDE b\n\n x\n\n".toList ∧
      s ∈ slides marker raw ∧ slides marker s.body = [⟨[], s.body⟩] := by
  intro raw marker s
  have hs : s ∈ slides marker raw := by decide +kernel
  obtain ⟨hwritten, hbody⟩ := slides_written marker raw
  exact ⟨hwritten, by decide +kernel, hs, (hbody s hs).2⟩

end Deck

end Typist
