import Mathlib.Data.List.Chain
import Typist.Proofs.Text.Lines
import Typist.Screen.Look

/-!
# What is read off styled lines

Lines of spans can be read again: line by line with a line feed between each two, span by span, each
character with the look of its span. What is shown of typed characters reads as they were typed, except
that nobody sees how a line feed looks. Two more things are asked of lines: that no span is empty or
breaks a line, and that neighbours look different, so that each span holds as much as it can. There is
one way only to show typed characters like this.

* `Style.look_injective` — different styles look different;
* `Span.read`, `readLines` — what is read off spans and lines;
* `Shows` — what is asked of the lines for typed characters;
* `styledLines_shows`, `Shows.unique` — the styled lines are like this, and no others are;
* `shows_iff` — the two together.
-/

namespace Typist

/-- Different styles look different, whatever the color of gray text. -/
theorem Style.look_injective (gray : Color) : Function.Injective (Style.look gray) := by
  rintro ⟨bold, italic, muted⟩ ⟨bold', italic', muted'⟩ h
  obtain ⟨rfl, rfl, -, hfg, -⟩ := Look.mk.inj h
  cases muted <;> cases muted' <;> first | rfl | cases hfg

/-! ## Reading -/

/-- What is read off a span: each character with the look of the span. -/
def Span.read (s : Span) : List (Char × Option Look) :=
  s.text.map fun c => (c, some s.look)

/-- What is read off the spans of a line. -/
def readLine (line : List Span) : List (Char × Option Look) :=
  line.flatMap Span.read

theorem readLine_cons (s : Span) (line : List Span) :
    readLine (s :: line) = s.read ++ readLine line :=
  rfl

/-- What is read off lines: a line feed, of no look, is between each two. -/
def readLines (lines : List (List Span)) : List (Char × Option Look) :=
  [('\n', none)].intercalate (lines.map readLine)

/-- A typed character as it is to be read. -/
def typedLook (gray : Color) (p : Char × Style) : Char × Option Look :=
  (p.1, if p.1 = '\n' then none else some (p.2.look gray))

/-- The spans of a line are in order: none is empty or breaks the line, and no two neighbours could be
one span. -/
structure IsLineOfSpans (line : List Span) : Prop where
  ne_nil : ∀ s ∈ line, s.text ≠ []
  no_feed : ∀ s ∈ line, '\n' ∉ s.text
  differ : line.IsChain fun s t => s.look ≠ t.look

/-- The lines for typed characters. -/
structure Shows (gray : Color) (typed : List (Char × Style)) (lines : List (List Span)) : Prop where
  /-- there is no line for nothing, and otherwise one more than there are line feeds -/
  length_eq : lines.length = if typed = [] then 0 else typed.countP (·.1 = '\n') + 1
  /-- they read as what was typed -/
  read_eq : readLines lines = typed.map (typedLook gray)
  /-- each of them is in order -/
  inOrder : ∀ line ∈ lines, IsLineOfSpans line

/-! ## One way only -/

variable {gray : Color} {typed : List (Char × Style)} {s t : Span} {line line' : List Span}

theorem IsLineOfSpans.tail (h : IsLineOfSpans (s :: line)) : IsLineOfSpans line :=
  ⟨(List.forall_mem_cons.1 h.ne_nil).2, (List.forall_mem_cons.1 h.no_feed).2, h.differ.tail⟩

theorem IsLineOfSpans.exists_head (h : IsLineOfSpans (s :: line)) :
    ∃ c rest, readLine (s :: line) = (c, some s.look) :: rest := by
  obtain ⟨c, cs, hcs⟩ := List.exists_cons_of_ne_nil (h.ne_nil s List.mem_cons_self)
  refine ⟨c, cs.map (fun c => (c, some s.look)) ++ readLine line, ?_⟩
  rw [readLine_cons, Span.read, hcs]
  rfl

/-- Behind a span something that looks different is read, or nothing. -/
theorem IsLineOfSpans.head?_ne (h : IsLineOfSpans (s :: line)) :
    ∀ p ∈ (readLine line).head?, decide (p.2 = some s.look) = false := by
  intro p hp
  rcases line with _ | ⟨t, line⟩
  · cases hp
  · obtain ⟨c, rest, hread⟩ := h.tail.exists_head
    rw [hread] at hp
    obtain rfl := Option.some.inj hp
    have hlook : s.look ≠ t.look := (List.isChain_cons_cons.1 h.differ).1
    exact decide_eq_false fun heq => hlook (Option.some.inj heq).symm

theorem Span.read_injective (hlook : s.look = t.look) (h : s.read = t.read) : s = t := by
  obtain ⟨text, look⟩ := s
  obtain ⟨text', look'⟩ := t
  obtain rfl : look = look' := hlook
  have htext := congrArg (List.map Prod.fst) h
  rw [Span.read, Span.read, List.map_map, List.map_map] at htext
  have hid : ∀ text : Text, text.map (Prod.fst ∘ fun c => (c, some look)) = text := List.map_id
  rw [hid, hid] at htext
  rw [show text = text' from htext]

/-- A line in order is known from what is read off it. -/
theorem IsLineOfSpans.eq_of_read_eq (h : IsLineOfSpans line) (h' : IsLineOfSpans line')
    (hread : readLine line = readLine line') : line = line' := by
  induction line generalizing line' with
  | nil =>
    rcases line' with _ | ⟨t, line'⟩
    · rfl
    · obtain ⟨c, rest, hcons⟩ := h'.exists_head
      rw [hcons] at hread
      cases hread
  | cons s line ih =>
    rcases line' with _ | ⟨t, line'⟩
    · obtain ⟨c, rest, hcons⟩ := h.exists_head
      rw [hcons] at hread
      cases hread
    · have hlook : s.look = t.look := by
        obtain ⟨c, rest, hcons⟩ := h.exists_head
        obtain ⟨c', rest', hcons'⟩ := h'.exists_head
        rw [hcons, hcons'] at hread
        exact Option.some.inj (Prod.mk.inj (List.cons.inj hread).1).2
      -- both first spans are what is read up to where the look changes
      have hrun : ∀ u : Span, u.look = s.look → ∀ p ∈ u.read, decide (p.2 = some s.look) = true := by
        intro u hu p hp
        obtain ⟨c, -, rfl⟩ := List.mem_map.1 hp
        exact decide_eq_true (congrArg some hu)
      have hhead := h'.head?_ne
      rw [← hlook] at hhead
      rw [readLine_cons, readLine_cons] at hread
      have hfirst := congrArg (List.takeWhile fun p => decide (p.2 = some s.look)) hread
      have hrest := congrArg (List.dropWhile fun p => decide (p.2 = some s.look)) hread
      rw [takeWhile_run (hrun s rfl) h.head?_ne, takeWhile_run (hrun t hlook.symm) hhead] at hfirst
      rw [dropWhile_run (hrun s rfl) h.head?_ne, dropWhile_run (hrun t hlook.symm) hhead] at hrest
      rw [Span.read_injective hlook hfirst, ih h.tail h'.tail hrest]

/-- Lines in order are known from what is read off each of them. -/
theorem eq_of_map_readLine_eq {lines lines' : List (List Span)}
    (h : ∀ line ∈ lines, IsLineOfSpans line) (h' : ∀ line ∈ lines', IsLineOfSpans line)
    (hread : lines.map readLine = lines'.map readLine) : lines = lines' := by
  induction lines generalizing lines' with
  | nil => exact (List.map_eq_nil_iff.1 hread.symm).symm
  | cons line lines ih =>
    rcases lines' with _ | ⟨line', lines'⟩
    · cases hread
    · obtain ⟨hfirst, hrest⟩ := List.cons.inj hread
      obtain ⟨hline, hlines⟩ := List.forall_mem_cons.1 h
      obtain ⟨hline', hlines'⟩ := List.forall_mem_cons.1 h'
      rw [hline.eq_of_read_eq hline' hfirst, ih hlines hlines' hrest]

/-- What is read off a line has a look, so it is no line feed between two lines. -/
theorem feed_not_mem_readLine (line : List Span) : ('\n', none) ∉ readLine line := by
  intro hmem
  obtain ⟨s, -, hmem⟩ := List.mem_flatMap.1 hmem
  obtain ⟨c, -, heq⟩ := List.mem_map.1 hmem
  cases heq

/-- What was read off lines can be taken apart again. -/
theorem splitOn_readLines {lines : List (List Span)} (hne : lines ≠ []) :
    (readLines lines).splitOn ('\n', none) = lines.map readLine := by
  apply List.splitOn_intercalate
  · intro read hread
    obtain ⟨line, -, rfl⟩ := List.mem_map.1 hread
    exact feed_not_mem_readLine line
  · exact mt List.map_eq_nil_iff.1 hne

/-- There is one way only to show typed characters. -/
theorem Shows.unique {lines lines' : List (List Span)} (h : Shows gray typed lines)
    (h' : Shows gray typed lines') : lines = lines' := by
  have hlength : lines.length = lines'.length := h.length_eq.trans h'.length_eq.symm
  rcases eq_or_ne lines [] with rfl | hne
  · exact (List.eq_nil_of_length_eq_zero hlength.symm).symm
  · have hne' : lines' ≠ [] := by
      rintro rfl
      exact hne (List.eq_nil_of_length_eq_zero hlength)
    apply eq_of_map_readLine_eq h.inOrder h'.inOrder
    rw [← splitOn_readLines hne, ← splitOn_readLines hne', h.read_eq, h'.read_eq]

/-! ## The styled lines -/

theorem splitLines_ne_nil (typed : List (Char × Style)) : splitLines typed ≠ [] := by
  fun_cases splitLines typed <;> simp_all

theorem length_splitLines (typed : List (Char × Style)) :
    (splitLines typed).length = typed.countP (·.1 = '\n') + 1 := by
  fun_induction splitLines typed with
  | case1 => rfl
  | case2 style rest ih =>
    rw [List.length_cons, ih, List.countP_cons_of_pos (by simp)]
  | case3 c style rest hc hnil ih => exact absurd hnil (splitLines_ne_nil rest)
  | case4 c style rest hc line lines hlines ih =>
    rw [hlines] at ih
    rw [List.countP_cons_of_neg (by simpa using hc), ← ih]
    rfl

/-- Typed characters that are taken apart at their line feeds, read again. -/
theorem intercalate_splitLines (gray : Color) (typed : List (Char × Style)) :
    [('\n', none)].intercalate
        ((splitLines typed).map fun line => line.map fun p => (p.1, some (p.2.look gray))) =
      typed.map (typedLook gray) := by
  fun_induction splitLines typed with
  | case1 => rfl
  | case2 style rest ih =>
    have hne : (splitLines rest).map (fun line => line.map fun p => (p.1, some (p.2.look gray))) ≠ [] :=
      mt List.map_eq_nil_iff.1 (splitLines_ne_nil rest)
    rw [List.map_cons, List.intercalate_cons_of_ne_nil hne, ih]
    rfl
  | case3 c style rest hc hnil ih => exact absurd hnil (splitLines_ne_nil rest)
  | case4 c style rest hc line lines hlines ih =>
    rw [hlines] at ih
    have hlook : typedLook gray (c, style) = (c, some (style.look gray)) := by
      rw [typedLook, if_neg hc]
    rw [List.map_cons (l := rest), hlook, ← ih]
    rcases lines with _ | ⟨line', lines⟩
    · simp
    · simp [List.intercalate_cons_cons]

theorem feed_not_mem_splitLines {typed : List (Char × Style)} {line : List (Char × Style)}
    (h : line ∈ splitLines typed) : ∀ p ∈ line, p.1 ≠ '\n' := by
  fun_induction splitLines typed generalizing line with
  | case1 =>
    obtain rfl := List.mem_singleton.1 h
    nofun
  | case2 style rest ih =>
    rcases List.mem_cons.1 h with rfl | h
    · nofun
    · exact ih h
  | case3 c style rest hc hnil ih => exact absurd hnil (splitLines_ne_nil rest)
  | case4 c style rest hc first lines hlines ih =>
    rw [hlines] at ih
    rcases List.mem_cons.1 h with rfl | h
    · exact List.forall_mem_cons.2 ⟨hc, ih List.mem_cons_self⟩
    · exact ih (List.mem_cons_of_mem _ h)

/-! ### Runs -/

/-- The runs of a line hold its characters with their styles. -/
theorem flatMap_styleRuns (chars : List (Char × Style)) :
    (styleRuns chars).flatMap (fun run => run.1.map (·, run.2)) = chars := by
  fun_induction styleRuns chars with
  | case1 => rfl
  | case2 c style rest hnil ih =>
    rw [hnil] at ih
    rw [← ih]
    rfl
  | case3 c style rest text runs hruns ih =>
    rw [hruns] at ih
    rw [← ih]
    rfl
  | case4 c style rest text style' runs hruns hstyle ih =>
    rw [hruns] at ih
    rw [← ih]
    rfl

theorem styleRuns_ne_nil (chars : List (Char × Style)) : ∀ run ∈ styleRuns chars, run.1 ≠ [] := by
  fun_induction styleRuns chars with
  | case1 => nofun
  | case2 c style rest hnil ih => exact List.forall_mem_singleton.2 (List.cons_ne_nil _ _)
  | case3 c style rest text runs hruns ih =>
    rw [hruns] at ih
    exact List.forall_mem_cons.2 ⟨List.cons_ne_nil _ _, (List.forall_mem_cons.1 ih).2⟩
  | case4 c style rest text style' runs hruns hstyle ih =>
    rw [hruns] at ih
    exact List.forall_mem_cons.2 ⟨List.cons_ne_nil _ _, ih⟩

/-- A run goes on as long as the style does. -/
theorem isChain_styleRuns (chars : List (Char × Style)) :
    (styleRuns chars).IsChain fun run run' => run.2 ≠ run'.2 := by
  fun_induction styleRuns chars with
  | case1 => exact List.isChain_nil
  | case2 c style rest hnil ih => exact List.isChain_singleton _
  | case3 c style rest text runs hruns ih =>
    rw [hruns] at ih
    exact List.isChain_cons.2 (List.isChain_cons.1 ih)
  | case4 c style rest text style' runs hruns hstyle ih =>
    rw [hruns] at ih
    exact List.isChain_cons_cons.2 ⟨hstyle, ih⟩

/-- The span of a run. -/
def runSpan (gray : Color) (run : Text × Style) : Span where
  text := run.1
  look := run.2.look gray

/-- The spans of a line read as its characters with the looks of their styles. -/
theorem readLine_map_runSpan (gray : Color) (chars : List (Char × Style)) :
    readLine ((styleRuns chars).map (runSpan gray)) =
      chars.map fun p => (p.1, some (p.2.look gray)) := by
  have hchars := congrArg (List.map fun p => (p.1, some (p.2.look gray))) (flatMap_styleRuns chars)
  rw [List.map_flatMap] at hchars
  rw [← hchars, readLine, List.flatMap_map]
  refine congrArg (List.flatMap · _) (funext fun run => ?_)
  rw [List.map_map]
  rfl

theorem isLineOfSpans_map_runSpan (gray : Color) {chars : List (Char × Style)}
    (h : ∀ p ∈ chars, p.1 ≠ '\n') : IsLineOfSpans ((styleRuns chars).map (runSpan gray)) where
  ne_nil := by
    intro s hs
    obtain ⟨run, hrun, rfl⟩ := List.mem_map.1 hs
    exact styleRuns_ne_nil chars run hrun
  no_feed := by
    intro s hs hfeed
    obtain ⟨run, hrun, rfl⟩ := List.mem_map.1 hs
    have hmem : ('\n', run.2) ∈ chars := by
      rw [← flatMap_styleRuns chars]
      exact List.mem_flatMap.2 ⟨run, hrun, List.mem_map.2 ⟨'\n', hfeed, rfl⟩⟩
    exact h _ hmem rfl
  differ := by
    rw [List.isChain_map]
    exact (isChain_styleRuns chars).imp fun _ _ hstyle => mt (Style.look_injective gray ·) hstyle

theorem styledLines_of_ne_nil (gray : Color) (h : typed ≠ []) :
    styledLines gray typed =
      (splitLines typed).map fun chars => (styleRuns chars).map (runSpan gray) := by
  rw [styledLines, if_neg (mt List.isEmpty_iff.1 h)]
  rfl

/-- The styled lines show what was typed. -/
theorem styledLines_shows (gray : Color) (typed : List (Char × Style)) :
    Shows gray typed (styledLines gray typed) := by
  rcases eq_or_ne typed [] with rfl | hne
  · exact ⟨rfl, rfl, nofun⟩
  · rw [styledLines_of_ne_nil gray hne]
    refine ⟨?_, ?_, ?_⟩
    · rw [List.length_map, length_splitLines, if_neg hne]
    · rw [← intercalate_splitLines, readLines, List.map_map]
      exact congrArg _ (List.map_congr_left fun chars _ => readLine_map_runSpan gray chars)
    · intro line hline
      obtain ⟨chars, hchars, rfl⟩ := List.mem_map.1 hline
      exact isLineOfSpans_map_runSpan gray (feed_not_mem_splitLines hchars)

/-- **Typed characters are shown in the one way there is.** Whatever the color of gray text, different
styles look different; and lines are the styled lines of typed characters exactly if there is none for
nothing and otherwise one more than there are line feeds, if they read as what was typed, the looks of
the line feeds aside, if no span is empty or holds a line feed, and if neighbours look different. -/
theorem shows_iff (gray : Color) (typed : List (Char × Style)) :
    Function.Injective (Style.look gray) ∧
      ∀ lines, Shows gray typed lines ↔ lines = styledLines gray typed := by
  refine ⟨Style.look_injective gray, fun lines => ?_⟩
  constructor
  · intro h
    exact h.unique (styledLines_shows gray typed)
  · rintro rfl
    exact styledLines_shows gray typed

/-- A style that goes on behind a line feed, line feeds next to each other, and one at the end. -/
example :
    styledLines .black
        [('a', {}), ('b', { bold := true }), ('\n', {}), ('c', { bold := true }), ('\n', {}),
          ('\n', { gray := true })] =
      [[⟨['a'], {}⟩, ⟨['b'], { bold := true }⟩], [⟨['c'], { bold := true }⟩], [], []] := by
  decide

end Typist
