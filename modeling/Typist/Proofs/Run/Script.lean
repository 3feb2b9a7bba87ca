import Typist.Run

/-!
# Scripts

A run plays tokens by recursion, because regions hold tokens of their own, and how much it erases
behind a region it finds out on the way, from its ledger. Both can be known beforehand. The script
of tokens is a flat list of strokes, each of which does one thing and waits at most once; and a
region erases as many characters as the texts right inside it have.

* `Stroke`, `script` — the strokes, and those that tokens amount to;
* `Draft` — what the strokes done so far say of the open scopes and of the characters that are
  typed and not erased, whatever the surface makes of it;
* `strikeAll_keeps` — what each stroke keeps, and waiting keeps, holds behind any strokes;
* `playAll_eq_strikeAll` — playing tokens is doing the strokes of their script one after the other.
-/

namespace Typist

/-- One thing that a run does. -/
inductive Stroke where
  /-- types a character -/
  | type (value : Char)
  /-- opens a scope -/
  | opening (tag : Tag)
  /-- closes a scope -/
  | closing (tag : Tag)
  /-- takes a pause -/
  | pause (millis : UInt64)
  /-- enters a region of so many tokens -/
  | enter (tokens : Nat)
  /-- holds what a region has typed -/
  | hold
  /-- is about to erase so many characters -/
  | turn (units : Nat)
  /-- erases the character that was typed last -/
  | erase
  deriving DecidableEq, Repr

/-! ## The script of tokens -/

/-- The text that a token leaves behind: its own, and nothing for a region. -/
def Token.left : Token → Text
  | .text value => value
  | _ => []

/-- The text that tokens leave behind. -/
def leftText (ts : List Token) : Text :=
  ts.flatMap Token.left

mutual

/-- The strokes of a token. -/
def Token.strokes : Token → List Stroke
  | .text value => value.map .type
  | .pause millis => [.pause millis]
  | .scopeStart tag => [.opening tag]
  | .scopeEnd tag => [.closing tag]
  | .delete inner =>
    .enter inner.length ::
      (script inner ++
        .hold :: .turn (leftText inner).length ::
          List.replicate (leftText inner).length .erase)

/-- The strokes of tokens, in order. -/
def script : List Token → List Stroke
  | [] => []
  | t :: ts => t.strokes ++ script ts

end

/-- The script of tokens in a row is their scripts in a row. -/
theorem script_append (as bs : List Token) : script (as ++ bs) = script as ++ script bs := by
  induction as with
  | nil => rfl
  | cons a as ih => simp [script, ih]

/-! ## Drafts -/

/-- The open tags after a close: those below the innermost one of its tag, or all if there is
none. -/
def closeTag (tag : Tag) (tags : List Tag) : List Tag :=
  match tags.dropWhile (· ≠ tag) with
  | [] => tags
  | _ :: below => below

/-- What is open and what is typed. -/
structure Draft where
  /-- the tags of the open scopes, the innermost first -/
  tags : List Tag := []
  /-- the characters typed and not erased, the last one first, each with the tags that were open
  when it was typed -/
  units : List (Char × List Tag) := []
  deriving DecidableEq, Repr

namespace Draft

/-- The draft after a stroke. -/
def strike (d : Draft) : Stroke → Draft
  | .type value => { d with units := (value, d.tags) :: d.units }
  | .opening tag => { d with tags := tag :: d.tags }
  | .closing tag => { d with tags := closeTag tag d.tags }
  | .erase => { d with units := d.units.tail }
  | .pause _ | .enter _ | .hold | .turn _ => d

/-- The draft after strokes. -/
def after (d : Draft) (xs : List Stroke) : Draft :=
  xs.foldl strike d

@[simp] theorem after_nil (d : Draft) : d.after [] = d := rfl

@[simp] theorem after_cons (d : Draft) (x : Stroke) (xs : List Stroke) :
    d.after (x :: xs) = (d.strike x).after xs := rfl

/-- Strokes in a row make of a draft what they make of it one part after the other. -/
theorem after_append (d : Draft) (xs ys : List Stroke) :
    d.after (xs ++ ys) = (d.after xs).after ys :=
  List.foldl_append

/-- Typing a text puts its characters in front, the last one first. -/
theorem units_after_type (d : Draft) (value : Text) :
    (d.after (value.map .type)).units = (value.map (·, d.tags)).reverse ++ d.units := by
  induction value generalizing d with
  | nil => rfl
  | cons c cs ih =>
    rw [List.map_cons, after_cons, ih]
    simp [strike]

/-- Erasing takes the characters in front away. -/
theorem units_after_erase (d : Draft) (n : Nat) :
    (d.after (List.replicate n .erase)).units = d.units.drop n := by
  induction n generalizing d with
  | zero => rfl
  | succ n ih =>
    rw [List.replicate_succ, after_cons, ih]
    simp [strike]

/-- Erasing leaves the open tags alone. -/
theorem tags_after_erase (d : Draft) (n : Nat) :
    (d.after (List.replicate n .erase)).tags = d.tags := by
  induction n generalizing d with
  | zero => rfl
  | succ n ih => rw [List.replicate_succ, after_cons, ih, strike]

mutual

/-- A token puts in front of the draft what it leaves behind. -/
theorem units_after_strokes (d : Draft) (t : Token) :
    ∃ fresh, (d.after t.strokes).units = fresh ++ d.units ∧
      fresh.map Prod.fst = t.left.reverse := by
  cases t with
  | text value =>
    refine ⟨(value.map (·, d.tags)).reverse, d.units_after_type value, ?_⟩
    simp [Token.left, Function.comp_def]
  | pause | scopeStart | scopeEnd => exact ⟨[], rfl, rfl⟩
  | delete inner =>
    refine ⟨[], ?_, rfl⟩
    obtain ⟨fresh, hunits, hfresh⟩ := units_after_script d inner
    have hlen : fresh.length = (leftText inner).length := by
      simpa using congrArg List.length hfresh
    rw [Token.strokes, after_cons, after_append, after_cons, after_cons, units_after_erase]
    change ((d.after (script inner)).units.drop _) = _
    rw [hunits, ← hlen, List.drop_left, List.nil_append]

/-- Tokens put in front of the draft what they leave behind. -/
theorem units_after_script (d : Draft) (ts : List Token) :
    ∃ fresh, (d.after (script ts)).units = fresh ++ d.units ∧
      fresh.map Prod.fst = (leftText ts).reverse := by
  cases ts with
  | nil => exact ⟨[], rfl, rfl⟩
  | cons t ts =>
    obtain ⟨first, hfirst, hleft⟩ := units_after_strokes d t
    obtain ⟨fresh, hfresh, hrest⟩ := units_after_script (d.after t.strokes) ts
    refine ⟨fresh ++ first, ?_, ?_⟩
    · rw [script, after_append, hfresh, hfirst, List.append_assoc]
    · simp [hleft, hrest, leftText]

end

/-- Strokes that leave the characters alone that were typed first, so many of them. -/
def ErasesAbove (floor : Nat) (d : Draft) : List Stroke → Prop
  | [] => True
  | x :: xs => (x = .erase → floor < d.units.length) ∧ (d.strike x).ErasesAbove floor xs

/-- Erasing stays above a floor if each part does. -/
theorem erasesAbove_append {floor : Nat} {d : Draft} {xs ys : List Stroke} :
    d.ErasesAbove floor (xs ++ ys) ↔
      d.ErasesAbove floor xs ∧ (d.after xs).ErasesAbove floor ys := by
  induction xs generalizing d with
  | nil => exact (iff_of_eq (true_and _)).symm
  | cons x xs ih => exact (and_congr_right fun _ => ih).trans and_assoc.symm

/-- What does not erase stays above any floor. -/
theorem erasesAbove_of_not_mem {floor : Nat} {d : Draft} {xs : List Stroke} (h : .erase ∉ xs) :
    d.ErasesAbove floor xs := by
  induction xs generalizing d with
  | nil => trivial
  | cons x xs ih =>
    obtain ⟨hx, hxs⟩ := List.ne_and_not_mem_of_not_mem_cons h
    exact ⟨fun heq => absurd heq.symm hx, ih hxs⟩

/-- Erasing so often stays above a floor if there is that much above it. -/
theorem erasesAbove_erase {floor : Nat} {d : Draft} {n : Nat} (h : floor + n ≤ d.units.length) :
    d.ErasesAbove floor (List.replicate n .erase) := by
  induction n generalizing d with
  | zero => trivial
  | succ n ih =>
    refine ⟨fun _ => by omega, ih ?_⟩
    change floor + n ≤ d.units.tail.length
    rw [List.length_tail]
    omega

mutual

/-- A token erases nothing but what it has typed. -/
theorem erasesAbove_strokes {floor : Nat} {d : Draft} (h : floor ≤ d.units.length) (t : Token) :
    d.ErasesAbove floor t.strokes := by
  cases t with
  | text value => exact erasesAbove_of_not_mem (by simp [Token.strokes])
  | pause | scopeStart | scopeEnd => exact erasesAbove_of_not_mem (by simp [Token.strokes])
  | delete inner =>
    obtain ⟨fresh, hunits, hfresh⟩ := d.units_after_script inner
    have hlen : floor + (leftText inner).length ≤ (d.after (script inner)).units.length := by
      have hcount := congrArg List.length hfresh
      rw [List.length_map, List.length_reverse] at hcount
      rw [hunits, List.length_append, hcount]
      omega
    have herase : (d.after (script inner)).ErasesAbove floor (List.replicate _ .erase) :=
      erasesAbove_erase hlen
    exact ⟨nofun, erasesAbove_append.2 ⟨erasesAbove_script h inner, nofun, nofun, herase⟩⟩

/-- Tokens erase nothing but what they have typed. -/
theorem erasesAbove_script {floor : Nat} {d : Draft} (h : floor ≤ d.units.length)
    (ts : List Token) : d.ErasesAbove floor (script ts) := by
  cases ts with
  | nil => trivial
  | cons t ts =>
    have hle : floor ≤ (d.after t.strokes).units.length := by
      obtain ⟨fresh, hunits, -⟩ := d.units_after_strokes t
      rw [hunits, List.length_append]
      omega
    exact erasesAbove_append.2 ⟨erasesAbove_strokes h t, erasesAbove_script hle ts⟩

end

end Draft

/-! ## Doing strokes -/

namespace Step

variable {σ : Type}

@[simp] theorem andThen_goes (r : Run σ) (next : Run σ → Step σ) :
    (Step.goes r).andThen next = next r := rfl

@[simp] theorem andThen_ends (halt : Halt) (r : Run σ) (next : Run σ → Step σ) :
    (Step.ends halt r).andThen next = .ends halt r := rfl

/-- It does not matter how steps in a row are bracketed. -/
theorem andThen_assoc (s : Step σ) (f g : Run σ → Step σ) :
    (s.andThen f).andThen g = s.andThen fun r => (f r).andThen g := by
  cases s <;> rfl

@[simp] theorem andThen_goes_right (s : Step σ) : s.andThen .goes = s := by
  cases s <;> rfl

/-- Inversion for a step that goes on: both of its parts did. -/
theorem andThen_eq_goes {s : Step σ} {next : Run σ → Step σ} {r' : Run σ}
    (h : s.andThen next = .goes r') : ∃ r, s = .goes r ∧ next r = .goes r' := by
  cases s with
  | goes r => exact ⟨r, rfl, h⟩
  | ends halt r => cases h

end Step

namespace Run

variable {σ : Type} [Surface σ]

/-- Does a stroke. -/
def strike (pace : Pace) : Stroke → Run σ → Step σ
  | .type value, r => r.typeChar pace value
  | .opening tag, r => .goes (r.openScope tag)
  | .closing tag, r => .goes (r.closeScope tag)
  | .pause millis, r => r.pause millis
  | .enter tokens, r => .goes (r.enterRegion tokens)
  | .hold, r => r.suspend (.ofMillis pace.hold)
  | .turn units, r => .goes (r.remark (.erasingRegion units))
  | .erase, r => r.eraseChar pace

/-- Does strokes in order. -/
def strikeAll (pace : Pace) : List Stroke → Run σ → Step σ
  | [], r => .goes r
  | x :: xs, r => (r.strike pace x).andThen (strikeAll pace xs)

@[simp] theorem strikeAll_nil (pace : Pace) (r : Run σ) : r.strikeAll pace [] = .goes r := rfl

@[simp] theorem strikeAll_cons (pace : Pace) (x : Stroke) (xs : List Stroke) (r : Run σ) :
    r.strikeAll pace (x :: xs) = (r.strike pace x).andThen (strikeAll pace xs) := rfl

/-- One stroke in a row is that stroke. -/
theorem strikeAll_singleton (pace : Pace) (x : Stroke) (r : Run σ) :
    r.strikeAll pace [x] = r.strike pace x :=
  Step.andThen_goes_right _

/-- Strokes in a row are struck one part after the other. -/
theorem strikeAll_append (pace : Pace) (xs ys : List Stroke) (r : Run σ) :
    r.strikeAll pace (xs ++ ys) = (r.strikeAll pace xs).andThen (strikeAll pace ys) := by
  induction xs generalizing r with
  | nil => rfl
  | cons x xs ih =>
    rw [List.cons_append, strikeAll_cons, strikeAll_cons, Step.andThen_assoc]
    congr 1
    funext r
    exact ih r

/-- What goes on behind strokes has gone on behind the first of them. -/
theorem strikeAll_append_eq_goes {pace : Pace} {xs ys : List Stroke} {r r' : Run σ}
    (h : r.strikeAll pace (xs ++ ys) = .goes r') :
    ∃ q, r.strikeAll pace xs = .goes q ∧ q.strikeAll pace ys = .goes r' := by
  rw [strikeAll_append] at h
  exact Step.andThen_eq_goes h

/-- Strokes that do not all go on end in one of them. -/
theorem strikeAll_eq_ends {pace : Pace} {xs : List Stroke} {r r' : Run σ} {halt : Halt}
    (h : r.strikeAll pace xs = .ends halt r') :
    ∃ done x rest q, xs = done ++ x :: rest ∧ r.strikeAll pace done = .goes q ∧
      q.strike pace x = .ends halt r' := by
  induction xs generalizing r with
  | nil => cases h
  | cons x xs ih =>
    rw [strikeAll_cons] at h
    cases hx : r.strike pace x with
    | ends halt' q =>
      rw [hx] at h
      exact ⟨[], x, xs, r, rfl, rfl, hx.trans h⟩
    | goes q =>
      rw [hx] at h
      obtain ⟨done, y, rest, q', rfl, hdone, hy⟩ := ih h
      refine ⟨x :: done, y, rest, q', rfl, ?_, hy⟩
      rw [strikeAll_cons, hx]
      exact hdone

/-! ### A stroke is something done, and perhaps a wait -/

/-- What a stroke does before it waits. -/
def made (x : Stroke) (r : Run σ) : Run σ :=
  match x with
  | .type value =>
    let (node, r) := r.createGlyph value
    let r := r.append r.current node
    { r with ledger := node :: r.ledger }.count fun s => { s with typed := s.typed + 1 }
  | .opening tag => r.openScope tag
  | .closing tag => r.closeScope tag
  | .pause _ => r.count fun s => { s with pauses := s.pauses + 1 }
  | .enter tokens => r.enterRegion tokens
  | .hold => r
  | .turn units => r.remark (.erasingRegion units)
  | .erase =>
    match r.ledger with
    | [] => r
    | node :: ledger =>
      ({ r with ledger }.takeOff node).count fun s => { s with erased := s.erased + 1 }

/-- The delay that a stroke waits for, if it waits, and the generator behind it. -/
def wait? (pace : Pace) (x : Stroke) (r : Run σ) : Option (Option Delay × Generator) :=
  match x with
  | .type _ => some (pace.typingDelay r.generator)
  | .pause millis => some (some (.ofMillis millis), r.generator)
  | .hold => some (some (.ofMillis pace.hold), r.generator)
  | .erase => if r.ledger = [] then none else some (pace.erasingDelay r.generator)
  | .opening _ | .closing _ | .enter _ | .turn _ => none

section

variable {I : Run σ → Prop} (hremove : ∀ r parent child,
  Surface.parent? r.surface child = some parent → I r → I (r.remove parent child))
include hremove

/-- What taking a node off its parent keeps, taking nodes off on the way up keeps. -/
theorem prune_keeps (steps : Nat) (node : Node) {r : Run σ} (h : I r) : I (prune steps node r) := by
  induction steps generalizing node r with
  | zero => exact h
  | succ steps ih =>
    unfold prune
    split
    · exact h
    · split
      · rename_i hp
        exact ih _ (hremove _ _ _ hp h)
      · exact h

/-- What taking off a node keeps is kept by all that an erasure takes off. -/
theorem takeOff_keeps (node : Node) {r : Run σ} (h : I r) : I (r.takeOff node) := by
  unfold takeOff
  split
  · rename_i hp
    exact prune_keeps hremove _ _ (hremove _ _ _ hp h)
  · exact h

/-- What taking off a node keeps is kept by all that a close takes off. -/
theorem foldl_removeIfEmpty_keeps (nodes : List Node) {r : Run σ} (h : I r) :
    I (nodes.foldl removeIfEmpty r) := by
  induction nodes generalizing r with
  | nil => exact h
  | cons node nodes ih =>
    refine ih ?_
    unfold removeIfEmpty
    split
    · exact h
    · split
      · rename_i hp
        exact hremove _ _ _ hp h
      · exact h

end

/-- A run that has only taken off nodes since an earlier moment. -/
structure Books {σ : Type} (r r' : Run σ) : Prop where
  scopes : r'.scopes = r.scopes
  ledger : r'.ledger = r.ledger
  summary : r'.summary = r.summary
  generator : r'.generator = r.generator
  history : r.history.length ≤ r'.history.length

omit [Surface σ] in
/-- A run that does nothing changes nothing in its books. -/
theorem Books.refl (r : Run σ) : Books r r :=
  ⟨rfl, rfl, rfl, rfl, Nat.le_refl _⟩

/-- A node that is taken off is an act more on record, and nothing else in the books. -/
theorem Books.remove {r r' : Run σ} (h : Books r r') (parent child : Node) :
    Books r (r'.remove parent child) :=
  ⟨h.scopes, h.ledger, h.summary, h.generator, Nat.le_succ_of_le h.history⟩

/-- Taking a glyph off the surface does not touch the other books. -/
theorem takeOff_books (node : Node) (r : Run σ) : Books r (r.takeOff node) :=
  takeOff_keeps (fun _ parent child _ h => h.remove parent child) node (.refl r)

/-- Taking off scopes that were closed does not touch the other books. -/
theorem foldl_removeIfEmpty_books (nodes : List Node) (r : Run σ) :
    Books r (nodes.foldl removeIfEmpty r) :=
  foldl_removeIfEmpty_keeps (fun _ parent child _ h => h.remove parent child) nodes (.refl r)

/-- A stroke does what it does and then waits. -/
theorem strike_eq (pace : Pace) (x : Stroke) (r : Run σ) :
    r.strike pace x =
      match r.wait? pace x with
      | none => .goes (r.made x)
      | some drawn => (r.made x).suspendDrawn drawn := by
  cases x with
  | type value | opening tag | closing tag | pause millis | enter tokens | hold | turn units =>
    rfl
  | erase =>
    simp only [strike, eraseChar, made, wait?]
    cases r.ledger with
    | nil => rfl
    | cons node ledger =>
      simp only [reduceCtorEq, if_false]
      rw [count, (takeOff_books _ _).generator]

end Run

/-- A run that has done nothing but wait since an earlier moment. -/
structure Run.Waits {σ : Type} (r r' : Run σ) : Prop where
  surface : r'.surface = r.surface
  scopes : r'.scopes = r.scopes
  ledger : r'.ledger = r.ledger
  notes : r'.notes = r.notes
  /-- the counts are the same, the delays that were asked for left aside -/
  summary : { r'.summary with requested := r.summary.requested } = r.summary
  history : ∃ waits, r'.history = waits ++ r.history ∧ ∀ act ∈ waits, act.delay?.isSome

/-- The run in a step, whether it goes on or not. -/
def Step.run {σ : Type} : Step σ → Run σ
  | .goes r => r
  | .ends _ r => r

namespace Run

variable {σ : Type}

/-- Not to wait is to wait for nothing. -/
theorem Waits.refl (r : Run σ) : Waits r r :=
  ⟨rfl, rfl, rfl, rfl, rfl, [], rfl, by simp⟩

/-- A run that has asked for a delay, and is to be cancelled like this from then on. -/
def asked (delay : Delay) (cancel : Cancel) (r : Run σ) : Run σ :=
  { (r.count fun s => { s with requested := s.requested + delay }).did (.wait delay) with cancel }

/-- What is asked for is a wait. -/
theorem asked_waits (delay : Delay) (cancel : Cancel) (r : Run σ) :
    Waits r (r.asked delay cancel) :=
  ⟨rfl, rfl, rfl, rfl, rfl, [.wait delay], rfl, by simp [Act.delay?]⟩

/-- A run that waits ends before the wait if it is cancelled then, and in it if it is cancelled there.
-/
theorem suspend_eq (delay : Delay) (r : Run σ) :
    r.suspend delay =
      if r.cancel = .fired then .ends .cancelled r
      else
        let cancel := (r.cancel.pass .request).elapse delay
        if cancel = .fired then .ends .cancelled (r.asked delay cancel)
        else .goes (r.asked delay (cancel.pass .wake)) := rfl

/-- However a wait ends, it was only a wait. -/
theorem suspend_waits (delay : Delay) (r : Run σ) : Waits r (r.suspend delay).run := by
  unfold suspend
  split
  · exact .refl r
  · dsimp only
    split
    · exact ⟨rfl, rfl, rfl, rfl, rfl, [.wait delay], rfl, by simp [Act.delay?]⟩
    · exact ⟨rfl, rfl, rfl, rfl, rfl, [.wait delay], rfl, by simp [Act.delay?]⟩

/-- So was one for a delay that was drawn, even if that is none. -/
theorem suspendDrawn_waits (drawn : Option Delay × Generator) (r : Run σ) :
    Waits r (r.suspendDrawn drawn).run := by
  unfold suspendDrawn
  split
  · exact .refl r
  · rename_i delay _
    obtain ⟨h₁, h₂, h₃, h₄, h₅, h₆⟩ := suspend_waits delay { r with generator := drawn.2 }
    exact ⟨h₁, h₂, h₃, h₄, h₅, h₆⟩

variable [Surface σ]

/-- After a stroke a run has done what the stroke does, and perhaps waited. -/
theorem strike_waits (pace : Pace) (x : Stroke) (r : Run σ) :
    Waits (r.made x) (r.strike pace x).run := by
  rw [strike_eq]
  split
  · exact .refl _
  · exact suspendDrawn_waits _ _

/-- Between what a stroke makes and the next stroke there is only its wait. -/
theorem waits_of_strike {pace : Pace} {x : Stroke} {r r' : Run σ} (h : r.strike pace x = .goes r') :
    Waits (r.made x) r' := by
  have hw := strike_waits pace x r
  rwa [h] at hw

/-- What holds of a run, of the draft that tells what it has done and of the strokes that are left
holds behind all of them, if each stroke keeps it and waiting keeps it. -/
theorem strikeAll_keeps {I : List Stroke → Draft → Run σ → Prop}
    (hmade : ∀ x xs d r, I (x :: xs) d r → I xs (d.strike x) (r.made x))
    (hwaits : ∀ xs d r r', Waits r r' → I xs d r → I xs d r') {pace : Pace} {xs : List Stroke}
    {d : Draft} {r r' : Run σ} (h : I xs d r) (hgo : r.strikeAll pace xs = .goes r') :
    I [] (d.after xs) r' := by
  induction xs generalizing r d with
  | nil =>
    cases hgo
    exact h
  | cons x xs ih =>
    obtain ⟨q, hq, hgo⟩ := Step.andThen_eq_goes hgo
    exact ih (hwaits _ _ _ _ (waits_of_strike hq) (hmade _ _ _ _ h)) hgo

/-- What each stroke keeps, and waiting keeps, holds wherever strokes end. -/
theorem strikeAll_run_keeps {I : Run σ → Prop} (hmade : ∀ x r, I r → I (r.made x))
    (hwaits : ∀ r r', Waits r r' → I r → I r') (pace : Pace) (xs : List Stroke) {r : Run σ}
    (h : I r) : I (r.strikeAll pace xs).run := by
  induction xs generalizing r with
  | nil => exact h
  | cons x xs ih =>
    have hx := hwaits _ _ (strike_waits pace x r) (hmade x r h)
    rw [strikeAll_cons]
    cases hs : r.strike pace x with
    | goes q =>
      rw [hs] at hx
      exact ih hx
    | ends halt q =>
      rw [hs] at hx
      exact hx

/-! ### The ledger is as long as the draft says -/

/-- A stroke changes the length of the ledger as it changes that of the draft. -/
theorem length_ledger_made {x : Stroke} {r : Run σ} {d : Draft}
    (h : r.ledger.length = d.units.length) :
    (r.made x).ledger.length = (d.strike x).units.length := by
  cases x with
  | type value => simpa [made, count, Draft.strike, append, createGlyph, did] using h
  | opening tag => exact h
  | closing tag =>
    simp only [made, closeScope, Draft.strike]
    split
    · exact h
    · rw [(foldl_removeIfEmpty_books _ _).ledger]
      exact h
  | pause millis | enter tokens | hold | turn units => exact h
  | erase =>
    simp only [made, Draft.strike]
    cases hl : r.ledger with
    | nil =>
      rw [hl] at h ⊢
      simp [List.eq_nil_of_length_eq_zero h.symm]
    | cons node ledger =>
      rw [hl] at h
      have hrest : (takeOff node { r with ledger }).ledger.length = d.units.tail.length := by
        rw [(takeOff_books _ _).ledger, List.length_tail, ← h]
        rfl
      exact hrest

omit [Surface σ] in
/-- Where strokes erase only what was typed, an erasure finds something on the ledger. -/
theorem ledger_ne_nil_of_erasesAbove {x : Stroke} {xs : List Stroke} {r : Run σ} {d : Draft}
    {floor : Nat} (hlen : r.ledger.length = d.units.length) (h : d.ErasesAbove floor (x :: xs)) :
    x = .erase → r.ledger ≠ [] := by
  intro hx
  have hlt := h.1 hx
  rw [← hlen] at hlt
  exact List.ne_nil_of_length_pos (Nat.zero_lt_of_lt hlt)

/-- The ledger is as long as the draft over any strokes. -/
theorem length_ledger_strikeAll {pace : Pace} {xs : List Stroke} {r r' : Run σ} {d : Draft}
    (h : r.ledger.length = d.units.length) (hgo : r.strikeAll pace xs = .goes r') :
    r'.ledger.length = (d.after xs).units.length := by
  let I : List Stroke → Draft → Run σ → Prop := fun _ d r => r.ledger.length = d.units.length
  have hmade (x xs d r) (h : I (x :: xs) d r) : I xs (d.strike x) (r.made x) :=
    length_ledger_made h
  have hwaits (xs d r r') (hw : Waits r r') (h : I xs d r) : I xs d r' :=
    (congrArg List.length hw.ledger).trans h
  exact strikeAll_keeps hmade hwaits h hgo

/-- A run that has done the script of tokens has their text on top of its ledger. -/
theorem length_ledger_script {pace : Pace} {ts : List Token} {r r' : Run σ}
    (hgo : r.strikeAll pace (script ts) = .goes r') :
    r'.ledger.length = (leftText ts).length + r.ledger.length := by
  -- any draft will do that has as many characters as the ledger
  let d : Draft := { units := r.ledger.map fun _ => (' ', []) }
  have hlen := length_ledger_strikeAll (d := d) (by simp [d]) hgo
  obtain ⟨fresh, hunits, hfresh⟩ := d.units_after_script ts
  have hleft := congrArg List.length hfresh
  rw [List.length_map, List.length_reverse] at hleft
  rw [hlen, hunits, List.length_append, hleft]
  simp [d]

/-! ### Playing is doing the script -/

/-- Typing a text is typing its characters, stroke by stroke. -/
theorem typeText_eq_strikeAll (pace : Pace) (value : Text) (r : Run σ) :
    r.typeText pace value = r.strikeAll pace (value.map .type) := by
  induction value generalizing r with
  | nil => rfl
  | cons c cs ih =>
    rw [List.map_cons, strikeAll_cons, typeText]
    congr 1
    funext r
    exact ih r

/-- Erasing several characters is erasing one, several times. -/
theorem eraseChars_eq_strikeAll (pace : Pace) (n : Nat) (r : Run σ) :
    r.eraseChars pace n = r.strikeAll pace (List.replicate n .erase) := by
  induction n generalizing r with
  | zero => rfl
  | succ n ih =>
    rw [List.replicate_succ, strikeAll_cons, eraseChars]
    congr 1
    funext r
    exact ih r

mutual

/-- Playing a token is doing its strokes. -/
theorem play_eq_strikeAll (pace : Pace) (t : Token) (r : Run σ) :
    r.play pace t = r.strikeAll pace t.strokes := by
  cases t with
  | text value =>
    rw [play, Token.strokes]
    exact typeText_eq_strikeAll pace value r
  | pause millis =>
    rw [play, Token.strokes, strikeAll_singleton]
    rfl
  | scopeStart tag | scopeEnd tag => rfl
  | delete inner =>
    rw [play, Token.strokes, strikeAll_cons, strike, Step.andThen_goes, strikeAll_append,
      playAll_eq_strikeAll pace inner, Step.andThen_assoc]
    cases hinner : (r.enterRegion inner.length).strikeAll pace (script inner) with
    | ends halt q => rfl
    | goes q =>
      rw [Step.andThen_goes, Step.andThen_goes, strikeAll_cons, strike]
      cases hhold : q.suspend (.ofMillis pace.hold) with
      | ends halt q' => rfl
      | goes q' =>
        have hw := (suspend_waits (.ofMillis pace.hold) q).ledger
        rw [hhold] at hw
        -- the ledger has gained what the tokens of the region leave behind
        have hunits : q'.ledger.length - r.ledger.length = (leftText inner).length := by
          change q'.ledger = q.ledger at hw
          rw [hw, length_ledger_script hinner]
          exact Nat.add_sub_cancel _ _
        rw [Step.andThen_goes, Step.andThen_goes, eraseRegion, hunits, strikeAll_cons, strike,
          Step.andThen_goes]
        exact eraseChars_eq_strikeAll _ _ _

/-- **Playing tokens is doing the strokes of their script one after the other.** -/
theorem playAll_eq_strikeAll (pace : Pace) (ts : List Token) (r : Run σ) :
    r.playAll pace ts = r.strikeAll pace (script ts) := by
  cases ts with
  | nil => rfl
  | cons t ts =>
    rw [playAll, script, strikeAll_append, play_eq_strikeAll pace t r]
    congr 1
    funext r
    exact playAll_eq_strikeAll pace ts r

end

end Run

end Typist
