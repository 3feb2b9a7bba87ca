import Typist.Text.Blank
import Typist.Markup.Token

/-!
# Pause tags

A pause tag starts with `<pause`, ends at the first `>`, and holds, somewhere in between, the
attribute `duration` with a number: `<pause duration="300"/>`, `<pause x duration = '300'>`. The
rest of the tag may say anything.

* The word right after `<pause` and the word before `duration` have to end there: neither may run
  on with an ASCII letter, a digit or an underscore.
* `duration` may be in any case. After it come optional blanks, `=`, optional blanks, an optional
  quote of either kind, and the digits.
* When several attributes fit, the last one counts, with its whole run of digits.
* A number beyond 64 bits becomes the largest one.

`readPause?` reads what stands after `<pause` and returns the inside of the tag, the duration and
the text behind the tag; `readPause?_source` says that nothing is lost on the way.
-/

namespace Typist

open Token

/-- What words are made of: ASCII letters, digits and the underscore. -/
def isWordChar (c : Char) : Bool :=
  c.isAlphanum || c = '_'

/-- What follows `p`, the letters compared in any ASCII case; `p` is in lower case. -/
def afterAnyCase? : Text → Text → Option Text
  | [], s => some s
  | _ :: _, [] => none
  | p :: ps, c :: cs => if p = c.toLower then afterAnyCase? ps cs else none

/-- A text without one quote at its start. -/
def dropQuote : Text → Text
  | '"' :: cs => cs
  | '\'' :: cs => cs
  | cs => cs

/-- The digits of the attribute `duration` that a text starts with. -/
def durationDigits? (s : Text) : Option Text :=
  match afterAnyCase? "duration".toList s with
  | none => none
  | some rest =>
    match rest.dropWhile isBlank with
    | '=' :: rest =>
      match (dropQuote (rest.dropWhile isBlank)).takeWhile Char.isDigit with
      | [] => none
      | d :: ds => some (d :: ds)
    | _ => none

/-- The digits of the last attribute `duration` in a text that stands after the character
`before`. -/
def lastDuration? (before : Char) : Text → Option Text
  | [] => none
  | c :: cs =>
    match lastDuration? c cs with
    | some ds => some ds
    | none => if isWordChar before then none else durationDigits? (c :: cs)

/-- The duration that the inside of a pause tag gives, what stands between `<pause` and `>`. -/
def pauseDuration? (inside : Text) : Option UInt64 :=
  match inside with
  | [] => none
  | c :: cs =>
    if isWordChar c then none
    else (lastDuration? 'e' (c :: cs)).map (saturate64 ∘ decimalValue)

/-- Reads a pause tag from what stands after `<pause`: its inside, its duration in milliseconds,
and what follows its `>`. -/
def readPause? (s : Text) : Option (Text × UInt64 × Text) :=
  match s.dropWhile (· ≠ '>') with
  | [] => none
  | _ :: rest =>
    let inside := s.takeWhile (· ≠ '>')
    (pauseDuration? inside).map fun millis => (inside, millis, rest)

/-- The inside, the `>` and the rest are what was read. -/
theorem readPause?_source {s inside rest : Text} {millis : UInt64}
    (h : readPause? s = some (inside, millis, rest)) : s = inside ++ '>' :: rest := by
  unfold readPause? at h
  split at h
  · simp at h
  · rename_i c tail htail
    simp only [Option.map_eq_some_iff, Prod.mk.injEq] at h
    obtain ⟨m, -, hin, -, hrest⟩ := h
    have hc : c = '>' := by
      have := List.head?_dropWhile_not (fun c : Char => decide (c ≠ '>')) s
      rw [htail] at this
      simpa using this
    have := List.takeWhile_append_dropWhile (p := fun c : Char => decide (c ≠ '>')) (l := s)
    rw [htail, hc] at this
    rw [← hin, ← hrest]
    exact this.symm

end Typist
