import Mathlib.Data.List.Basic
import Typist.Screen

/-!
# Rows of a screen

What is typed is not lost on its way to the screen, however narrow that is: what wrapping takes out of
a line is blanks and what is wider than a whole row, and what is left keeps its order. A line that has
room in a row stays as it is. And a picture is as large as its screen.

* `inWords` — the symbols of a line that are no blanks;
* `Wrapping.inWords_come_add` — one step of wrapping takes out nothing else;
* `inWords_flatten_wrap` — nor does wrapping;
* `Wrapping.Whole`, `wrap_of_columnsOf_lt` — a line with room in a row;
* `Screen.render_fits` — the size of a picture.
-/

namespace Typist

variable {width : Nat} {s : Symbol} {ss ts : List Symbol} {w : Wrapping}

@[simp] theorem columnsOf_nil : columnsOf [] = 0 := rfl

@[simp] theorem columnsOf_cons (s : Symbol) (ss : List Symbol) :
    columnsOf (s :: ss) = s.columns + columnsOf ss := rfl

@[simp] theorem columnsOf_append (ss ts : List Symbol) :
    columnsOf (ss ++ ts) = columnsOf ss + columnsOf ts := by
  induction ss with
  | nil => exact (Nat.zero_add _).symm
  | cons s ss ih => rw [List.cons_append, columnsOf_cons, columnsOf_cons, ih, Nat.add_assoc]

/-- The symbols that are part of words. -/
def inWords (ss : List Symbol) : List Symbol :=
  ss.filter fun s => !s.isBreak

@[simp] theorem inWords_append (ss ts : List Symbol) :
    inWords (ss ++ ts) = inWords ss ++ inWords ts :=
  List.filter_append ss ts

theorem inWords_eq_nil (h : ∀ s ∈ ss, s.isBreak) : inWords ss = [] := by
  simpa [inWords] using h

namespace Wrapping

/-- What has come and is not taken out, in order. -/
def come (w : Wrapping) : List Symbol :=
  w.rows.flatten ++ w.row ++ w.blanks ++ w.word

/-! ## Words are kept -/

/-- What is kept as blanks is blank. -/
def KeepsBlanks (w : Wrapping) : Prop :=
  ∀ s ∈ w.blanks, s.isBreak

@[simp] theorem come_settle (w : Wrapping) : w.settle.come = w.come := by
  simp [settle, come]

theorem come_settleBefore (width : Nat) (s : Symbol) (w : Wrapping) :
    (w.settleBefore width s).come = w.come := by
  unfold settleBefore
  split
  · exact come_settle w
  · rfl

theorem KeepsBlanks.settleBefore (h : w.KeepsBlanks) (width : Nat) (s : Symbol) :
    (w.settleBefore width s).KeepsBlanks := by
  unfold Wrapping.settleBefore
  split
  · intro t ht
    cases ht
  · exact h

/-- Blanks are taken out from the front. -/
theorem dropFitting_suffix (room : Nat) (ss : List Symbol) : dropFitting room ss <:+ ss := by
  induction ss generalizing room with
  | nil => exact List.suffix_rfl
  | cons s ss ih =>
    rw [dropFitting]
    split
    · exact List.suffix_rfl
    · exact (ih _).trans (List.suffix_cons s ss)

theorem KeepsBlanks.breakRow (h : w.KeepsBlanks) (width : Nat) : (w.breakRow width).KeepsBlanks :=
  fun t ht => h t ((dropFitting_suffix _ _).mem ht)

/-- Where a row is finished, nothing but blanks is taken out. -/
theorem KeepsBlanks.inWords_come_breakRow (h : w.KeepsBlanks) (width : Nat) :
    inWords (w.breakRow width).come = inWords w.come := by
  have hkept : inWords (w.breakRow width).blanks = [] := inWords_eq_nil (h.breakRow width)
  have hblanks : inWords w.blanks = [] := inWords_eq_nil h
  have hrows : (w.breakRow width).rows.flatten ++ (w.breakRow width).row =
      w.rows.flatten ++ w.row := by
    simp [Wrapping.breakRow]
  have hword : (w.breakRow width).word = w.word := rfl
  rw [come, come, hrows, hword]
  simp only [inWords_append, hkept, hblanks]

theorem KeepsBlanks.keep (h : w.KeepsBlanks) (s : Symbol) : (w.keep s).KeepsBlanks := by
  unfold Wrapping.keep
  split
  · rename_i hs
    exact List.forall_mem_append.2 ⟨h, List.forall_mem_singleton.2 hs⟩
  · exact h

/-- A blank that comes stands in front of the word; nobody sees that among the words. -/
theorem inWords_come_keep (s : Symbol) (w : Wrapping) :
    inWords (w.keep s).come = inWords w.come ++ inWords [s] := by
  unfold keep
  split
  · rename_i hs
    have hnone : inWords [s] = [] := inWords_eq_nil (by simpa using hs)
    simp only [come, inWords_append, hnone, List.append_nil]
  · simp only [come, inWords_append, List.append_assoc]

/-- What a symbol adds to the words is the symbol, if it is part of one and fits into a row. -/
theorem KeepsBlanks.inWords_come_add (h : w.KeepsBlanks) (width : Nat) (s : Symbol) :
    (w.add width s).KeepsBlanks ∧
      inWords (w.add width s).come =
        inWords w.come ++ inWords ([s].filter fun s => s.columns ≤ width) := by
  unfold add
  split
  · rename_i hwide
    have hout : [s].filter (fun s => s.columns ≤ width) = [] := by simpa using hwide
    refine ⟨h, ?_⟩
    rw [hout]
    exact (List.append_nil _).symm
  · rename_i hfits
    have hin : [s].filter (fun s => s.columns ≤ width) = [s] := by simpa using hfits
    have hsettled := h.settleBefore width s
    have hcome := come_settleBefore width s w
    rw [hin, ← hcome]
    dsimp only
    split
    · have hbroken := hsettled.breakRow width
      rw [← hsettled.inWords_come_breakRow width]
      split
      · rename_i hblank
        have hnone : inWords [s] = [] :=
          inWords_eq_nil (by simpa using (Bool.and_eq_true_iff.1 hblank).1)
        refine ⟨hbroken, ?_⟩
        rw [hnone, List.append_nil]
      · exact ⟨hbroken.keep s, inWords_come_keep s _⟩
    · exact ⟨hsettled.keep s, inWords_come_keep s _⟩

/-- What a line adds to the words, symbol by symbol. -/
theorem KeepsBlanks.inWords_come_foldl (h : w.KeepsBlanks) (width : Nat) (ss : List Symbol) :
    inWords (ss.foldl (add width) w).come =
      inWords w.come ++ inWords (ss.filter fun s => s.columns ≤ width) := by
  induction ss generalizing w with
  | nil => exact (List.append_nil _).symm
  | cons s ss ih =>
    obtain ⟨hblanks, hcome⟩ := h.inWords_come_add width s
    have hsplit : (s :: ss).filter (fun s => s.columns ≤ width) =
        [s].filter (fun s => s.columns ≤ width) ++ ss.filter fun s => s.columns ≤ width :=
      List.filter_append [s] ss
    rw [List.foldl_cons, ih hblanks, hcome, hsplit, inWords_append, List.append_assoc]

/-- At the end nothing more is taken out. -/
theorem flatten_finish (w : Wrapping) : w.finish.flatten = w.come := by
  have hlast : (if w.settle.row.isEmpty then [] else [w.settle.row]).flatten = w.settle.row := by
    split
    · rename_i hempty
      exact (List.isEmpty_iff.1 hempty).symm
    · simp
  have hblank (b : Bool) : (if b then [[]] else [] : List (List Symbol)).flatten = [] := by
    cases b <;> rfl
  have hrows : (w.rows ++
      (if w.row.isEmpty && w.word.isEmpty && !w.blanks.isEmpty then [[]] else []) ++
      (if w.settle.row.isEmpty then [] else [w.settle.row])).flatten = w.come := by
    rw [List.flatten_append, List.flatten_append, hlast, hblank]
    simp [come, settle]
  have hnone (rows : List (List Symbol)) :
      (if rows.isEmpty then [[]] else rows).flatten = rows.flatten := by
    cases rows <;> rfl
  rw [finish, hnone, hrows]

/-! ## A line with room in a row -/

/-- A line of which nothing has been taken out and no row was finished. -/
structure Whole (w : Wrapping) (ss : List Symbol) : Prop where
  rows : w.rows = []
  come : w.row ++ w.blanks ++ w.word = ss
  blanks : w.KeepsBlanks
  word : ∀ s ∈ w.word, s.isBreak = false
  /-- a word that is kept goes on -/
  goes_on : w.word ≠ [] → w.inWord = true
  /-- a word that goes on is there -/
  there : w.inWord = true → ∃ s ∈ w.row ++ w.word, s.isBreak = false
  /-- what is in the row got there with a word -/
  row : w.row ≠ [] → ∃ s ∈ w.row, s.isBreak = false

theorem Whole.settle (h : Whole w ss) (hword : w.inWord = true) : Whole w.settle ss := by
  obtain ⟨s, hs, hbreak⟩ := h.there hword
  have hrow : s ∈ w.settle.row := by
    rcases List.mem_append.1 hs with hs | hs
    · exact List.mem_append_left _ (List.mem_append_left _ hs)
    · exact List.mem_append_right _ hs
  refine ⟨h.rows, ?_, nofun, nofun, fun _ => hword, fun _ => ?_, fun _ => ⟨s, hrow, hbreak⟩⟩
  · simp [Wrapping.settle, ← h.come]
  · exact ⟨s, List.mem_append_left _ hrow, hbreak⟩

theorem Whole.keep_blank (h : Whole w ss) (hs : s.isBreak = true) (hword : w.word = []) :
    Whole (w.keep s) (ss ++ [s]) := by
  have hblanks : (w.keep s).KeepsBlanks := h.blanks.keep s
  rw [keep, if_pos hs] at hblanks ⊢
  refine ⟨h.rows, ?_, hblanks, h.word, fun hne => absurd hword hne, nofun, h.row⟩
  simp [← h.come, hword]

theorem Whole.keep_letter (h : Whole w ss) (hs : s.isBreak = false) :
    Whole (w.keep s) (ss ++ [s]) := by
  have hletters := List.forall_mem_append.2 ⟨h.word, List.forall_mem_singleton.2 hs⟩
  rw [keep, if_neg (by simp [hs])]
  refine ⟨h.rows, ?_, h.blanks, hletters, fun _ => rfl, fun _ => ⟨s, by simp, hs⟩, h.row⟩
  simp [← h.come]

theorem Whole.columns_eq (h : Whole w ss) :
    columnsOf w.row + columnsOf w.blanks + columnsOf w.word = columnsOf ss := by
  rw [← h.come, columnsOf_append, columnsOf_append]

/-- A row with room to spare is not finished. -/
theorem Whole.not_isFullFor (h : Whole w ss) (hroom : columnsOf ss < width) :
    w.isFullFor width s = false := by
  have hcolumns := h.columns_eq
  simp only [isFullFor, Bool.or_eq_false_iff, Bool.and_eq_false_imp, decide_eq_false_iff_not]
  omega

/-- A line with room for one more symbol takes it. -/
theorem Whole.add (h : Whole w ss) (hroom : columnsOf ss + s.columns < width) :
    Whole (w.add width s) (ss ++ [s]) := by
  have hcolumns := h.columns_eq
  have hfits : ¬width < s.columns := by omega
  have hunforced : ¬width < columnsOf w.blanks + columnsOf w.word + s.columns := by omega
  have hsettle : w.settleBefore width s = if w.inWord && s.isBreak then w.settle else w := by
    simp [settleBefore, hunforced]
  have hkeep {v : Wrapping} (hv : Whole v ss) (heq : w.settleBefore width s = v) :
      w.add width s = v.keep s := by
    have hroomy : v.isFullFor width s = false := hv.not_isFullFor (by omega)
    simp [Wrapping.add, hfits, heq, hroomy]
  cases hs : s.isBreak with
  | false =>
    rw [hkeep h (by simp [hsettle, hs])]
    exact h.keep_letter hs
  | true =>
    cases hword : w.inWord with
    | true =>
      have hsettled := h.settle hword
      rw [hkeep hsettled (by simp [hsettle, hs, hword])]
      exact hsettled.keep_blank hs rfl
    | false =>
      have hnil : w.word = [] := by
        by_contra hne
        rw [h.goes_on hne] at hword
        cases hword
      rw [hkeep h (by simp [hsettle, hword])]
      exact h.keep_blank hs hnil

theorem Whole.foldl (h : Whole w ss) (hroom : columnsOf (ss ++ ts) < width) :
    Whole (ts.foldl (Wrapping.add width) w) (ss ++ ts) := by
  induction ts generalizing w ss with
  | nil => rwa [List.append_nil]
  | cons t ts ih =>
    rw [columnsOf_append, columnsOf_cons] at hroom
    have hstep : Whole (w.add width t) (ss ++ [t]) := h.add (by omega)
    have hrest := ih hstep (by simp; omega)
    rwa [List.append_assoc, List.singleton_append] at hrest

end Wrapping

open Wrapping

/-- **Wrapping loses no words.** The rows of a line hold, in order, all its symbols but blanks, as far as
a row can take them. -/
theorem inWords_flatten_wrap (width : Nat) (ss : List Symbol) :
    inWords (wrap width ss).flatten = inWords (ss.filter fun s => s.columns ≤ width) := by
  have hstart : KeepsBlanks {} := nofun
  rw [wrap, flatten_finish, hstart.inWords_come_foldl]
  rfl

/-- **A line with room to spare stays as it is**; one of nothing but blanks has an empty row in front. -/
theorem wrap_of_columnsOf_lt (h : columnsOf ss < width) :
    wrap width ss = if ss ≠ [] ∧ ∀ s ∈ ss, s.isBreak then [[], ss] else [ss] := by
  have hstart : Whole {} [] := ⟨rfl, rfl, nofun, nofun, nofun, nofun, nofun⟩
  have hwhole : Whole (ss.foldl (Wrapping.add width) {}) ss := hstart.foldl h
  rw [wrap]
  generalize ss.foldl (Wrapping.add width) {} = w at hwhole
  have hlast : w.settle.row = ss := hwhole.come
  by_cases hblank : w.row = [] ∧ w.word = []
  · have hss : w.blanks = ss := by simpa [hblank] using hwhole.come
    have hall : ∀ s ∈ w.blanks, s.isBreak := hwhole.blanks
    rw [hss] at hall
    by_cases hnil : ss = []
    · simp [finish, hwhole.rows, hblank, hss, hlast, hnil]
    · rw [if_pos ⟨hnil, hall⟩]
      simp [finish, hwhole.rows, hblank, hss, hlast, hnil]
  · obtain ⟨s, hs, hbreak⟩ : ∃ s ∈ w.row ++ w.word, s.isBreak = false := by
      by_cases hempty : w.row = []
      · exact hwhole.there (hwhole.goes_on fun hnil => hblank ⟨hempty, hnil⟩)
      · obtain ⟨s, hs, hbreak⟩ := hwhole.row hempty
        exact ⟨s, List.mem_append_left _ hs, hbreak⟩
    have hmem : s ∈ ss := by
      rw [← hwhole.come]
      simp only [List.mem_append] at hs ⊢
      tauto
    have hne : ss ≠ [] := List.ne_nil_of_mem hmem
    have hpart : ¬∀ s ∈ ss, s.isBreak := fun hall => by
      rw [hall s hmem] at hbreak
      cases hbreak
    simp [finish, hwhole.rows, hblank, hlast, hne, hpart]

namespace Screen

/-- A row is filled to the edge, and no further. -/
theorem length_fillRow (empty : Cell) (width : Nat) (ss : List Symbol) :
    (fillRow empty width ss).length = width := by
  simp [fillRow]

/-- An area has as many rows as it is high, all of its width. -/
theorem fitRows_fits (width height : Nat) {rows : List (List Cell)}
    (h : ∀ row ∈ rows, row.length = width) :
    (fitRows width height rows).length = height ∧
      ∀ row ∈ fitRows width height rows, row.length = width := by
  constructor
  · simp [fitRows]
    omega
  · intro row hrow
    rcases List.mem_append.1 hrow with hrow | hrow
    · exact h row (List.mem_of_mem_take hrow)
    · rw [List.eq_of_mem_replicate hrow, List.length_replicate]

/-- No row of the screen is left over. -/
theorem heights_sum (hasTitle : Bool) (height : Nat) :
    (heights hasTitle height).title + (heights hasTitle height).text +
      (heights hasTitle height).status = height := by
  unfold heights
  dsimp only
  split_ifs <;> simp_all <;> omega

/-- **A picture is as large as its screen.** -/
theorem render_fits (size : Size) (c : Chrome) (spans : List (Char × Style)) (phase : Phase) :
    (render size c spans phase).length = size.height ∧
      ∀ row ∈ render size c spans phase, row.length = size.width := by
  obtain ⟨h, hh⟩ : ∃ h, heights c.title.isSome size.height = h := ⟨_, rfl⟩
  have htitle : ∀ row ∈ c.title.toList.map (titleRow size.width), row.length = size.width := by
    intro row hrow
    obtain ⟨title, -, rfl⟩ := List.mem_map.1 hrow
    exact length_fillRow _ _ _
  have htext : ∀ row ∈ textRows size.width c spans phase, row.length = size.width := by
    intro row hrow
    obtain ⟨line, -, hrow⟩ := List.mem_flatMap.1 hrow
    obtain ⟨ss, -, rfl⟩ := List.mem_map.1 hrow
    exact length_fillRow _ _ _
  have hstatus : ∀ row ∈ [statusRow size.width c phase], row.length = size.width := by
    intro row hrow
    rw [List.mem_singleton.1 hrow]
    exact length_fillRow _ _ _
  have htitle := fitRows_fits size.width h.title htitle
  have htext := fitRows_fits size.width h.text htext
  have hstatus := fitRows_fits size.width h.status hstatus
  rw [render, hh]
  constructor
  · rw [List.length_append, List.length_append, htitle.1, htext.1, hstatus.1, ← hh, heights_sum]
  · intro row hrow
    rw [List.mem_append, List.mem_append] at hrow
    rcases hrow with (hrow | hrow) | hrow
    · exact htitle.2 row hrow
    · exact htext.2 row hrow
    · exact hstatus.2 row hrow

end Screen

end Typist
