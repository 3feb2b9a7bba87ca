import Mathlib.Data.List.DropRight
import Typist.Text.Blank

/-!
# Lines put together and taken apart

A text without line feeds is a line, and lines that are put together are found again when the text is
taken apart. In how many steps they are put together does not matter: texts made of lines, put together
like lines themselves, are the text of all these lines.

* `takeWhile_run`, `dropWhile_run` — where a run ends;
* `lines_unlines` — lines that were put together are found again;
* `unlines_map_unlines` — putting together what was put together from lines;
* `trim_trim`, `trim_infix` — the blanks at the two ends of a line are gone once they were taken.
-/

namespace Typist

/-! ## Runs -/

section

variable {α : Type} {p : α → Bool} {run rest : List α}

/-- A run of members of a class in front of something that is not of it is what `dropWhile` drops. -/
theorem dropWhile_run (hrun : ∀ a ∈ run, p a = true) (hrest : ∀ a ∈ rest.head?, p a = false) :
    (run ++ rest).dropWhile p = rest := by
  rw [List.dropWhile_append_of_pos hrun]
  cases rest with
  | nil => rfl
  | cons a rest => exact List.dropWhile_cons_of_neg (by simp [hrest a rfl])

/-- A run of members of a class in front of something that is not of it is what `takeWhile` takes. -/
theorem takeWhile_run (hrun : ∀ a ∈ run, p a = true) (hrest : ∀ a ∈ rest.head?, p a = false) :
    (run ++ rest).takeWhile p = run := by
  rw [List.takeWhile_append_of_pos hrun]
  cases rest with
  | nil => simp
  | cons a rest => rw [List.takeWhile_cons_of_neg (by simp [hrest a rfl]), List.append_nil]

end

namespace Text

/-! ## Taking apart -/

theorem pieces_of_not_mem {mark : Char} {s : Text} (h : mark ∉ s) : pieces mark s = [s] := by
  induction s with
  | nil => rfl
  | cons c cs ih =>
    rw [List.mem_cons, not_or] at h
    rw [pieces, if_neg (Ne.symm h.1), ih h.2]

/-- The first mark ends the first piece. -/
theorem pieces_append_cons {mark : Char} {s : Text} (h : mark ∉ s) (rest : Text) :
    pieces mark (s ++ mark :: rest) = s :: pieces mark rest := by
  induction s with
  | nil => rw [List.nil_append, pieces, if_pos rfl]
  | cons c cs ih =>
    rw [List.mem_cons, not_or] at h
    rw [List.cons_append, pieces, if_neg (Ne.symm h.1), ih h.2]

/-! ## Putting together -/

@[simp] theorem unlines_singleton (l : Text) : unlines [l] = l :=
  List.intercalate_singleton

theorem unlines_cons {ls : List Text} (h : ls ≠ []) (l : Text) :
    unlines (l :: ls) = l ++ '\n' :: unlines ls := by
  rw [unlines, List.intercalate_cons_of_ne_nil h, List.append_assoc]
  rfl

/-- Lines and further lines are joined as texts are, with a line feed between them. -/
theorem unlines_append {ls ms : List Text} (hls : ls ≠ []) (hms : ms ≠ []) :
    unlines (ls ++ ms) = unlines ls ++ '\n' :: unlines ms := by
  induction ls with
  | nil => exact absurd rfl hls
  | cons l ls ih =>
    rcases eq_or_ne ls [] with rfl | hls
    · rw [List.singleton_append, unlines_cons hms, unlines_singleton]
    · rw [List.cons_append, unlines_cons (List.append_ne_nil_of_left_ne_nil hls ms), ih hls,
        unlines_cons hls, List.append_assoc, List.cons_append]

/-- Texts made of lines are put together into the text of all their lines. -/
theorem unlines_map_unlines {lss : List (List Text)} (h : ∀ ls ∈ lss, ls ≠ []) :
    unlines (lss.map unlines) = unlines lss.flatten := by
  induction lss with
  | nil => rfl
  | cons ls lss ih =>
    obtain ⟨hls, hrest⟩ := List.forall_mem_cons.1 h
    rcases lss with _ | ⟨ms, lss⟩
    · rw [List.map_singleton, unlines_singleton, List.flatten_singleton]
    · have hmap : (ms :: lss).map unlines ≠ [] := List.cons_ne_nil _ _
      have hflat : (ms :: lss).flatten ≠ [] :=
        List.append_ne_nil_of_left_ne_nil (hrest ms List.mem_cons_self) lss.flatten
      rw [List.map_cons, unlines_cons hmap, ih hrest, ← unlines_append hls hflat]
      rfl

/-- Lines that were put together are found again. -/
theorem lines_unlines {ls : List Text} (hne : ls ≠ []) (h : ∀ l ∈ ls, '\n' ∉ l) :
    (unlines ls).lines = ls := by
  induction ls with
  | nil => exact absurd rfl hne
  | cons l ls ih =>
    obtain ⟨hl, hls⟩ := List.forall_mem_cons.1 h
    rcases eq_or_ne ls [] with rfl | hne
    · rw [unlines_singleton, lines, pieces_of_not_mem hl]
    · rw [unlines_cons hne, lines, pieces_append_cons hl]
      exact congrArg (l :: ·) (ih hne hls)

/-- Putting lines together brings in line feeds only. -/
theorem not_mem_unlines {c : Char} (hc : c ≠ '\n') {ls : List Text} (h : ∀ l ∈ ls, c ∉ l) :
    c ∉ unlines ls := by
  induction ls with
  | nil => exact List.not_mem_nil
  | cons l ls ih =>
    obtain ⟨hl, hls⟩ := List.forall_mem_cons.1 h
    rcases eq_or_ne ls [] with rfl | hne
    · rwa [unlines_singleton]
    · rw [unlines_cons hne, List.mem_append, List.mem_cons]
      rintro (hmem | rfl | hmem)
      · exact hl hmem
      · exact hc rfl
      · exact ih hls hmem

/-- A text is blank if its lines are. -/
theorem isBlank_unlines (ls : List Text) : (unlines ls).isBlank = ls.all isBlank := by
  induction ls with
  | nil => rfl
  | cons l ls ih =>
    rcases eq_or_ne ls [] with rfl | hne
    · rw [unlines_singleton, List.all_cons, List.all_nil, Bool.and_true]
    · have hfeed : Typist.isBlank '\n' = true := rfl
      rw [unlines_cons hne, isBlank, List.all_append, List.all_cons, hfeed, Bool.true_and,
        List.all_cons, ← ih, isBlank, isBlank]

/-! ## The ends of a line -/

variable {drops : Char → Bool}

theorem trimBy_isPrefix (s : Text) : s.trimBy drops <+: s.dropWhile drops :=
  List.rdropWhile_prefix drops _

theorem trim_infix (s : Text) : s.trim <:+: s :=
  trimBy_isPrefix s |>.isInfix.trans (List.dropWhile_suffix _).isInfix

/-- What was taken from the two ends of a text is gone. -/
theorem trimBy_trimBy (s : Text) : (s.trimBy drops).trimBy drops = s.trimBy drops := by
  have hfront : (s.trimBy drops).dropWhile drops = s.trimBy drops := by
    rw [List.dropWhile_eq_self_iff]
    intro hpos
    rw [(trimBy_isPrefix s).getElem hpos]
    exact List.dropWhile_eq_self_iff.1 (List.dropWhile_idempotent drops s) _
  rw [trimBy, hfront]
  exact List.rdropWhile_idempotent drops _

theorem trim_trim (s : Text) : s.trim.trim = s.trim :=
  trimBy_trimBy s

end Text

end Typist
