import Typist.Deck
import Typist.Proofs.Text.Lines

/-!
# How a document is cut into slides

The lines of a document are what stands between its line breaks, of whatever kind these are. They
fall into those in front of the first header and into sections, each a header with the lines up to the
next one. The slides are the sections, one for each in their order, with the lines in front as one more
slide if there is anything in them. So each line has its place in one slide, or is one of the blank
lines that stand in front of everything.

* `HasLines`, `hasLines_iff` — the lines of a document, told by its breaks;
* `IsHeader`, `Section` — headers, and sections, well formed by their fields;
* `Cut`, `exists_cut` — the lines of a document cut at its headers, which can be done;
* `Cut.split_eq` — what the cutting of lines gives;
* `slides_cut` — the slides of a document are those of its cut.
-/

namespace Typist

namespace Deck

/-! ## Lines -/

/-- A text without a line break. -/
def IsLine (line : Text) : Prop :=
  '\n' ∉ line ∧ '\r' ∉ line

/-- The line breaks: a line feed, a carriage return with a line feed, and a carriage return with no
line feed behind it. -/
def IsBreak (s rest : Text) : Prop :=
  s = ['\n'] ∨ s = ['\r', '\n'] ∨ s = ['\r'] ∧ rest.head? ≠ some '\n'

/-- The lines of a document: they make it up, with a line break between each two. -/
inductive HasLines : Text → List Text → Prop
  | last {line} (h : IsLine line) : HasLines line [line]
  | more {line brk rest lines} (h : IsLine line) (hbreak : IsBreak brk rest)
      (next : HasLines rest lines) : HasLines (line ++ (brk ++ rest)) (line :: lines)

/-- Nothing but carriage returns is changed. -/
theorem unifyBreaks_cons {c : Char} (h : c ≠ '\r') (cs : Text) :
    unifyBreaks (c :: cs) = c :: unifyBreaks cs :=
  unifyBreaks.eq_4 c cs (fun _ hc => absurd hc h) h

theorem unifyBreaks_append {line : Text} (h : '\r' ∉ line) (rest : Text) :
    unifyBreaks (line ++ rest) = line ++ unifyBreaks rest := by
  induction line with
  | nil => rfl
  | cons c cs ih =>
    rw [List.mem_cons, not_or] at h
    rw [List.cons_append, unifyBreaks_cons (Ne.symm h.1), ih h.2, List.cons_append]

/-- A break of any kind becomes a line feed. -/
theorem unifyBreaks_break {brk rest : Text} (h : IsBreak brk rest) :
    unifyBreaks (brk ++ rest) = '\n' :: unifyBreaks rest := by
  obtain rfl | rfl | ⟨rfl, hrest⟩ := h
  · exact unifyBreaks_cons (by decide) rest
  · rfl
  · refine unifyBreaks.eq_3 rest fun behind hbehind => hrest ?_
    rw [hbehind, List.head?_cons]

/-- One more character in the first line. -/
theorem HasLines.cons {raw line : Text} {lines : List Text} (h : HasLines raw (line :: lines))
    {c : Char} (hc : IsLine [c]) : HasLines (c :: raw) ((c :: line) :: lines) := by
  have hline (hl : IsLine line) : IsLine (c :: line) :=
    ⟨by simpa using ⟨by simpa using hc.1, hl.1⟩, by simpa using ⟨by simpa using hc.2, hl.2⟩⟩
  cases h with
  | last hl => exact .last (hline hl)
  | more hl hbreak next => exact .more (hline hl) hbreak next

/-- A break in front is one behind an empty line. -/
theorem HasLines.behind_break {brk rest : Text} {lines : List Text} (h : HasLines rest lines)
    (hbreak : IsBreak brk rest) : HasLines (brk ++ rest) ([] :: lines) :=
  .more ⟨List.not_mem_nil, List.not_mem_nil⟩ hbreak h

/-- Every document has its lines. -/
theorem hasLines_unifyBreaks (raw : Text) : HasLines raw (unifyBreaks raw).lines := by
  fun_induction unifyBreaks raw with
  | case1 => exact .last ⟨List.not_mem_nil, List.not_mem_nil⟩
  | case2 cs ih => exact ih.behind_break (.inr (.inl rfl))
  | case3 cs hfeed ih =>
    refine ih.behind_break (.inr (.inr ⟨rfl, fun hhead => ?_⟩))
    obtain ⟨rest, rfl⟩ := List.head?_eq_some_iff.1 hhead
    exact hfeed rest rfl
  | case4 c cs _ hreturn ih =>
    by_cases hc : c = '\n'
    · subst hc
      exact ih.behind_break (.inl rfl)
    · obtain ⟨line, lines, hlines⟩ := List.exists_cons_of_ne_nil (Text.lines_ne_nil (unifyBreaks cs))
      have hcons : Text.lines (c :: unifyBreaks cs) = (c :: line) :: lines := by
        rw [Text.lines] at hlines ⊢
        rw [Text.pieces, if_neg hc, hlines]
      rw [hcons]
      rw [hlines] at ih
      exact ih.cons ⟨by simpa using Ne.symm hc, by simpa using Ne.symm hreturn⟩

/-- **A document has its lines, and no others.** -/
theorem hasLines_iff {raw : Text} {lines : List Text} :
    HasLines raw lines ↔ lines = (unifyBreaks raw).lines := by
  constructor
  · intro h
    induction h with
    | @last line h =>
      have hline := unifyBreaks_append h.2 []
      rw [List.append_nil] at hline
      rw [hline, unifyBreaks, List.append_nil, Text.lines, Text.pieces_of_not_mem h.1]
    | more h hbreak _ ih =>
      rw [unifyBreaks_append h.2, unifyBreaks_break hbreak, Text.lines,
        Text.pieces_append_cons h.1, ih, Text.lines]
  · rintro rfl
    exact hasLines_unifyBreaks raw

/-! ## Sections -/

/-- A line is a header if the marker, which is not empty, begins it, both in lower case and the line
without the blanks around it. -/
def IsHeader (marker line : Text) : Prop :=
  marker.lowercase ≠ [] ∧ marker.lowercase <+: line.trim.lowercase

theorem isHeader_iff {marker line : Text} :
    isHeader marker.lowercase line = true ↔ IsHeader marker line := by
  rw [isHeader, Bool.and_eq_true, List.isPrefixOf_iff_prefix]
  exact and_congr_left fun _ => by simp

/-- A header with the lines between it and the next one. -/
structure Section (marker : Text) where
  header : Text
  body : List Text
  isHeader : IsHeader marker header
  no_header : ∀ line ∈ body, ¬IsHeader marker line

namespace Section

variable {marker : Text}

/-- The lines of a section, its header first. -/
def lines (s : Section marker) : List Text :=
  s.header :: s.body

/-- The slide that a section becomes. -/
def slide (s : Section marker) : Slide where
  title := s.header.trim
  body := Text.unlines s.body

end Section

/-- A document is cut into the lines in front of its first header, and its sections. -/
structure Cut (marker raw : Text) (front : List Text) (sections : List (Section marker)) : Prop where
  lines : HasLines raw (front ++ sections.flatMap Section.lines)
  no_header : ∀ line ∈ front, ¬IsHeader marker line

/-- The slide without a title that lines in front of everything become, unless they are all blank. -/
def untitled (front : List Text) : List Slide :=
  if ∃ line ∈ front, line.isBlank = false then [⟨[], Text.unlines front⟩] else []

variable {marker raw : Text} {front : List Text} {sections : List (Section marker)}

theorem split_append (h : ∀ line ∈ front, ¬IsHeader marker line) (lines : List Text) :
    split marker.lowercase (front ++ lines) =
      (front ++ (split marker.lowercase lines).1, (split marker.lowercase lines).2) := by
  induction front with
  | nil => rfl
  | cons line front ih =>
    have hline : isHeader marker.lowercase line = false :=
      Bool.eq_false_iff.2 (mt isHeader_iff.1 (h line List.mem_cons_self))
    rw [List.cons_append, split, ih fun line' hmem => h line' (List.mem_cons_of_mem line hmem)]
    simp [hline]

theorem split_flatMap (sections : List (Section marker)) :
    split marker.lowercase (sections.flatMap Section.lines) = ([], sections.map Section.slide) := by
  induction sections with
  | nil => rfl
  | cons s sections ih =>
    have hheader : isHeader marker.lowercase s.header = true := isHeader_iff.2 s.isHeader
    have hbody := split_append s.no_header (sections.flatMap Section.lines)
    rw [ih, List.append_nil] at hbody
    rw [List.flatMap_cons, Section.lines, List.cons_append, split, hbody]
    simp [hheader, Section.slide]

/-- Lines that are cut at their headers become what the cut says. -/
theorem Cut.split_eq (h : Cut marker raw front sections) :
    split marker.lowercase (unifyBreaks raw).lines = (front, sections.map Section.slide) := by
  rw [← hasLines_iff.1 h.lines, split_append h.no_header, split_flatMap, List.append_nil]

/-- Lines can be cut at their headers. -/
theorem exists_sections (marker : Text) (lines : List Text) :
    ∃ front, ∃ sections : List (Section marker), lines = front ++ sections.flatMap Section.lines ∧
      ∀ line ∈ front, ¬IsHeader marker line := by
  induction lines with
  | nil => exact ⟨[], [], rfl, nofun⟩
  | cons line lines ih =>
    obtain ⟨front, sections, rfl, hfront⟩ := ih
    by_cases hline : IsHeader marker line
    · exact ⟨[], ⟨line, front, hline, hfront⟩ :: sections, rfl, nofun⟩
    · exact ⟨line :: front, sections, rfl, List.forall_mem_cons.2 ⟨hline, hfront⟩⟩

theorem exists_cut (marker raw : Text) :
    ∃ front, ∃ sections : List (Section marker), Cut marker raw front sections := by
  obtain ⟨front, sections, heq, hfront⟩ := exists_sections marker (unifyBreaks raw).lines
  exact ⟨front, sections, hasLines_iff.2 heq.symm, hfront⟩

theorem untitled_eq (front : List Text) :
    untitled front = if front.all Text.isBlank then [] else [⟨[], Text.unlines front⟩] := by
  rw [untitled]
  by_cases hblank : front.all Text.isBlank = true
  · have hnone : ¬∃ line ∈ front, line.isBlank = false := by
      rintro ⟨line, hmem, hline⟩
      rw [List.all_eq_true.1 hblank line hmem] at hline
      cases hline
    rw [if_pos hblank, if_neg hnone]
  · have hsome : ∃ line ∈ front, line.isBlank = false := by
      simpa using hblank
    rw [if_neg hblank, if_pos hsome]

theorem Cut.slides_eq (h : Cut marker raw front sections) :
    slides marker raw = untitled front ++ sections.map Section.slide := by
  rw [slides, h.split_eq, untitled_eq]
  by_cases hblank : front.all Text.isBlank = true
  · simp only [if_pos hblank, List.nil_append]
  · simp only [if_neg hblank, List.singleton_append]

/-- **Cutting a document into slides loses no line and moves none.** A document has its lines, and can be
cut at its headers; and however it is cut, the slides are those of the sections in their order, each
with the trimmed header as its title and the lines up to the next header as its body, behind an untitled
slide of the lines in front of the first header, exactly if one of these is not blank. -/
theorem slides_cut (marker raw : Text) :
    (∀ lines, HasLines raw lines ↔ lines = (unifyBreaks raw).lines) ∧
      (∃ front, ∃ sections : List (Section marker), Cut marker raw front sections) ∧
      ∀ front, ∀ sections : List (Section marker), Cut marker raw front sections →
        slides marker raw = untitled front ++ sections.map Section.slide :=
  ⟨fun _ => hasLines_iff, exists_cut marker raw, fun _ _ h => h.slides_eq⟩

/-- Blank lines in front are in no slide, those in a section are; a header may come right behind
another one. -/
example :
    slides "Slide".toList " \r\r\nslide A\rSLIDE b\r\n\n x\r\r\n".toList =
      [⟨"slide A".toList, []⟩, ⟨"SLIDE b".toList, "\n x\n\n".toList⟩] := by
  decide +kernel

end Deck

end Typist
