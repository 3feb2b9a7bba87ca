import Mathlib.Data.Set.Card
import Mathlib.Order.Bounds.Basic
import Typist.Markup.Piece
import Typist.Proofs.Markup.DeleteTags

/-!
# The end of a region, by counting

The scan for the end of a region keeps a depth. What it finds can be told without one, by counting
the tags from the start of the body on: the region ends at the first `</delete>` up to which, itself
included, there is one `</delete>` more than there are `<delete>` in front of it. If there is none
such, it ends at the very first `</delete>`.

* `OccursAt` — the places of one text in another, in bytes, and `offsets`, their list;
* `Balances` — whether a `</delete>` balances a body, told by how many tags stand where;
* `findsLeast_balancedClose?`, `findsLeast_firstClose?` — what the two scans find;
* `regionEnd?_iff` — where a region ends.
-/

namespace Typist

open Token

/-! ## Offsets -/

/-- A text `p` stands in `u` at an offset, in bytes. -/
def OccursAt (p u : Text) (k : Nat) : Prop :=
  ∃ front back : Text, u = front ++ p ++ back ∧ front.utf8Length = k

/-- The offsets, in bytes, at which `p` stands in a text that itself stands at the offset `o`. -/
def offsetsFrom (p : Text) (o : Nat) : Text → List Nat
  | [] => []
  | c :: cs =>
    if p.isPrefixOf (c :: cs) then o :: offsetsFrom p (o + c.utf8Size) cs
    else offsetsFrom p (o + c.utf8Size) cs

/-- The offsets at which `p` stands in a text, in order. -/
def offsets (p u : Text) : List Nat :=
  offsetsFrom p 0 u

theorem utf8Length_cons (c : Char) (cs : Text) :
    Text.utf8Length (c :: cs) = c.utf8Size + Text.utf8Length cs :=
  rfl

/-- An offset is listed exactly if the pattern occurs there, counted in bytes from where the list
begins. -/
theorem mem_offsetsFrom {p : Text} (hp : p ≠ []) {u : Text} {o k : Nat} :
    k ∈ offsetsFrom p o u ↔
      ∃ front back : Text, u = front ++ p ++ back ∧ k = o + front.utf8Length := by
  induction u generalizing o with
  | nil =>
    refine iff_of_false List.not_mem_nil ?_
    rintro ⟨front, back, h, -⟩
    have hnil := (List.append_eq_nil_iff.1 h.symm).1
    exact hp (List.append_eq_nil_iff.1 hnil).2
  | cons c cs ih =>
    -- it stands at the very beginning, or behind the first character
    have hsplit : (∃ front back : Text, c :: cs = front ++ p ++ back ∧ k = o + front.utf8Length) ↔
        (p.isPrefixOf (c :: cs) = true ∧ k = o) ∨ k ∈ offsetsFrom p (o + c.utf8Size) cs := by
      rw [ih, List.isPrefixOf_iff_prefix]
      constructor
      · rintro ⟨front, back, h, rfl⟩
        cases front with
        | nil => exact .inl ⟨⟨back, h.symm⟩, rfl⟩
        | cons d front =>
          obtain ⟨rfl, rfl⟩ := List.cons.inj h
          exact .inr ⟨front, back, rfl, by rw [utf8Length_cons, Nat.add_assoc]⟩
      · rintro (⟨⟨back, h⟩, rfl⟩ | ⟨front, back, rfl, rfl⟩)
        · exact ⟨[], back, h.symm, rfl⟩
        · exact ⟨c :: front, back, rfl, by rw [utf8Length_cons, Nat.add_assoc]⟩
    rw [hsplit, offsetsFrom]
    split
    · rename_i h
      simp [h]
    · rename_i h
      simp [h]

theorem le_of_mem_offsetsFrom {p u : Text} {o k : Nat} (h : k ∈ offsetsFrom p o u) : o ≤ k := by
  induction u generalizing o with
  | nil => cases h
  | cons c cs ih =>
    rw [offsetsFrom] at h
    split at h
    · obtain rfl | h := List.mem_cons.1 h
      · exact Nat.le_refl _
      · exact Nat.le_of_add_right_le (ih h)
    · exact Nat.le_of_add_right_le (ih h)

theorem lt_of_mem_offsetsFrom {p cs : Text} {c : Char} {o k : Nat}
    (h : k ∈ offsetsFrom p (o + c.utf8Size) cs) : o < k := by
  have hle := le_of_mem_offsetsFrom h
  have hpos := c.utf8Size_pos
  omega

/-- Offsets come in order, and none twice. -/
theorem offsetsFrom_sorted (p : Text) (o : Nat) (u : Text) : (offsetsFrom p o u).Pairwise (· < ·) := by
  induction u generalizing o with
  | nil => exact .nil
  | cons c cs ih =>
    rw [offsetsFrom]
    split
    · exact List.pairwise_cons.2 ⟨fun k hk => lt_of_mem_offsetsFrom hk, ih _⟩
    · exact ih _

/-- What is listed is where the pattern occurs. -/
theorem mem_offsets {p : Text} (hp : p ≠ []) {u : Text} {k : Nat} :
    k ∈ offsets p u ↔ OccursAt p u k := by
  rw [offsets, mem_offsetsFrom hp, OccursAt]
  simp only [Nat.zero_add, eq_comm (a := k)]

/-- There are as many places with a property as it has offsets in the list. -/
theorem ncard_occursAt {p : Text} (hp : p ≠ []) (u : Text) (q : Nat → Prop) [DecidablePred q] :
    {k | OccursAt p u k ∧ q k}.ncard = (offsets p u).countP (q ·) := by
  have hnodup : ((offsets p u).filter (q ·)).Nodup :=
    ((offsetsFrom_sorted p 0 u).imp Nat.ne_of_lt).filter _
  have hset : {k | OccursAt p u k ∧ q k} = ↑((offsets p u).filter (q ·)).toFinset := by
    ext k
    simp [mem_offsets hp]
  rw [hset, Set.ncard_coe_finset, List.toFinset_card_of_nodup hnodup, List.countP_eq_length_filter]

/-- The offsets behind a beginning of a text are those in the rest of it; what begins in front does
not count, even if it reaches over. -/
theorem filter_offsetsFrom_append (p : Text) (o : Nat) (a b : Text) :
    (offsetsFrom p o (a ++ b)).filter (o + a.utf8Length ≤ ·) =
      offsetsFrom p (o + a.utf8Length) b := by
  induction a generalizing o with
  | nil =>
    exact List.filter_eq_self.2 fun k hk => decide_eq_true (le_of_mem_offsetsFrom hk)
  | cons c a ih =>
    have hpos := c.utf8Size_pos
    have hrest := ih (o + c.utf8Size)
    rw [Nat.add_assoc, ← utf8Length_cons] at hrest
    rw [List.cons_append, offsetsFrom]
    split
    · rw [List.filter_cons_of_neg, hrest]
      rw [utf8Length_cons, decide_eq_true_eq]
      omega
    · exact hrest

/-- Behind a cut, the offsets of the whole text are those of the part behind it. -/
theorem mem_offsets_append {p a b : Text} {k : Nat} :
    k ∈ offsets p (a ++ b) ∧ a.utf8Length ≤ k ↔ k ∈ offsetsFrom p a.utf8Length b := by
  have h := filter_offsetsFrom_append p 0 a b
  rw [Nat.zero_add] at h
  rw [← h, List.mem_filter, decide_eq_true_eq]
  rfl

/-- Counting occurrences behind a cut is counting them in the part behind it. -/
theorem countP_offsets_append (p a b : Text) (q : Nat → Bool) :
    (offsets p (a ++ b)).countP (fun k => a.utf8Length ≤ k ∧ q k) =
      (offsetsFrom p a.utf8Length b).countP q := by
  have h := filter_offsetsFrom_append p 0 a b
  rw [Nat.zero_add] at h
  rw [← h, List.countP_filter]
  refine List.countP_congr fun k _ => ?_
  simp [and_comm]

/-! ## Balance -/

/-- A `</delete>` at `c` balances a body that begins at `start`: from there on and up to it, itself
included, there is one `</delete>` more than there are `<delete>` in front of it. -/
structure Balances (u : Text) (start c : Nat) : Prop where
  stands : OccursAt deleteClose u c
  behind : start ≤ c
  counts : {k | OccursAt deleteClose u k ∧ start ≤ k ∧ k ≤ c}.ncard =
    {k | OccursAt deleteOpen u k ∧ start ≤ k ∧ k < c}.ncard + 1

/-- A `</delete>` at `c`, in a text that stands at `o`, closes `depth` regions that were opened in
front of the text, and the one around them. -/
def Closes (depth o : Nat) (b : Text) (c : Nat) : Prop :=
  c ∈ offsetsFrom deleteClose o b ∧
    (offsetsFrom deleteClose o b).countP (· ≤ c) =
      (offsetsFrom deleteOpen o b).countP (· < c) + depth + 1

theorem deleteClose_ne_nil : deleteClose ≠ [] := by
  decide

/-- Where the tags behind a cut balance is seen from the part behind it. -/
theorem balances_append_iff {a b : Text} {c : Nat} :
    Balances (a ++ b) a.utf8Length c ↔ Closes 0 a.utf8Length b c := by
  have hcloses := countP_offsets_append deleteClose a b (· ≤ c)
  have hopens := countP_offsets_append deleteOpen a b (· < c)
  simp only [decide_eq_true_eq] at hcloses hopens
  rw [Closes, ← mem_offsets_append, mem_offsets deleteClose_ne_nil, ← hcloses, ← hopens,
    ← ncard_occursAt deleteClose_ne_nil, ← ncard_occursAt deleteOpen_ne_nil]
  exact ⟨fun h => ⟨⟨h.stands, h.behind⟩, h.counts⟩, fun h => ⟨h.1.1, h.1.2, h.2⟩⟩

/-- A `</delete>` stands where the text starts with one. -/
theorem offsetsFrom_deleteClose_cons (o : Nat) (c : Char) (cs : Text) :
    offsetsFrom deleteClose o (c :: cs) =
      if deleteTag? (c :: cs) = some .closing then o :: offsetsFrom deleteClose (o + c.utf8Size) cs
      else offsetsFrom deleteClose (o + c.utf8Size) cs := by
  rw [offsetsFrom, deleteTag?]
  split
  · rfl
  · split <;> rfl

/-- A `<delete>` stands where the text starts with one; it does not start with a `</delete>` then. -/
theorem offsetsFrom_deleteOpen_cons (o : Nat) (c : Char) (cs : Text) :
    offsetsFrom deleteOpen o (c :: cs) =
      if deleteTag? (c :: cs) = some .opening then o :: offsetsFrom deleteOpen (o + c.utf8Size) cs
      else offsetsFrom deleteOpen (o + c.utf8Size) cs := by
  rw [offsetsFrom, deleteTag?]
  by_cases hclose : deleteClose.isPrefixOf (c :: cs) = true
  · have hopen : ¬ deleteOpen.isPrefixOf (c :: cs) = true := by
      rw [List.isPrefixOf_iff_prefix] at hclose ⊢
      intro hopen
      obtain h | h := List.prefix_or_prefix_of_prefix hclose hopen
      · exact absurd h (by decide)
      · exact absurd h (by decide)
    rw [if_pos hclose, if_neg hopen]
    rfl
  · rw [if_neg hclose]
    split <;> rfl

theorem countP_offsetsFrom_le (p : Text) (o : Nat) (c : Char) (cs : Text) :
    (offsetsFrom p (o + c.utf8Size) cs).countP (· ≤ o) = 0 := by
  refine List.countP_eq_zero.2 fun k hk => ?_
  have hlt := lt_of_mem_offsetsFrom hk
  simpa using hlt

/-- One `</delete>` is passed, and there is one less to close. -/
theorem closes_cons_closing {c : Char} {cs : Text} (h : deleteTag? (c :: cs) = some .closing)
    {depth o k : Nat} :
    Closes (depth + 1) o (c :: cs) k ↔ Closes depth (o + c.utf8Size) cs k := by
  rw [Closes, Closes, offsetsFrom_deleteClose_cons, offsetsFrom_deleteOpen_cons, h, if_pos rfl,
    if_neg nofun, List.countP_cons, List.mem_cons]
  constructor
  · rintro ⟨rfl | hk, hcount⟩
    · rw [countP_offsetsFrom_le] at hcount
      simp at hcount
    · have hlt := lt_of_mem_offsetsFrom hk
      rw [if_pos (by simpa using hlt.le)] at hcount
      exact ⟨hk, by omega⟩
  · rintro ⟨hk, hcount⟩
    have hlt := lt_of_mem_offsetsFrom hk
    rw [if_pos (by simpa using hlt.le)]
    exact ⟨.inr hk, by omega⟩

/-- One `<delete>` is passed, and there is one more to close. -/
theorem closes_cons_opening {c : Char} {cs : Text} (h : deleteTag? (c :: cs) = some .opening)
    {depth o k : Nat} :
    Closes depth o (c :: cs) k ↔ Closes (depth + 1) (o + c.utf8Size) cs k := by
  rw [Closes, Closes, offsetsFrom_deleteClose_cons, offsetsFrom_deleteOpen_cons, h, if_neg nofun,
    if_pos rfl, List.countP_cons]
  refine and_congr_right fun hk => ?_
  have hlt := lt_of_mem_offsetsFrom hk
  rw [if_pos (by simpa using hlt)]
  omega

/-- A character at which no tag begins is passed over. -/
theorem closes_cons_none {c : Char} {cs : Text} (h : deleteTag? (c :: cs) = none)
    {depth o k : Nat} :
    Closes depth o (c :: cs) k ↔ Closes depth (o + c.utf8Size) cs k := by
  rw [Closes, Closes, offsetsFrom_deleteClose_cons, offsetsFrom_deleteOpen_cons, h, if_neg nofun,
    if_neg nofun]

/-! ## What the scans find -/

/-- What a scan of a text that stands at `o` finds, `n` characters on, is the least offset with a
property; or it finds nothing, and there is no such offset. -/
def FindsLeast (P : Nat → Prop) (o : Nat) (b : Text) : Option Nat → Prop
  | none => ∀ k, ¬P k
  | some n => IsLeast {k | P k} (o + Text.utf8Length (b.take n))

section

variable {P Q : Nat → Prop} {o : Nat} {b : Text} {found : Option Nat}

theorem FindsLeast.congr (h : FindsLeast P o b found) (hPQ : ∀ k, Q k ↔ P k) :
    FindsLeast Q o b found := by
  obtain rfl : Q = P := funext fun k => propext (hPQ k)
  exact h

/-- What is found behind a character is found one character later from in front of it. -/
theorem FindsLeast.cons {c : Char} (h : FindsLeast P (o + c.utf8Size) b found)
    (hPQ : ∀ k, Q k ↔ P k) : FindsLeast Q o (c :: b) (found.map (· + 1)) := by
  obtain rfl : Q = P := funext fun k => propext (hPQ k)
  cases found with
  | none => exact h
  | some n =>
    change IsLeast _ (o + (c.utf8Size + Text.utf8Length (b.take n)))
    rw [← Nat.add_assoc]
    exact h

/-- Nothing is found exactly if there is nothing to find. -/
theorem FindsLeast.map_eq_none_iff (h : FindsLeast P o b found) :
    (found.map fun n => o + Text.utf8Length (b.take n)) = none ↔ ∀ k, ¬P k := by
  cases found with
  | none => exact iff_of_true rfl h
  | some n => exact iff_of_false (Option.some_ne_none _) fun hno => hno _ h.1

/-- What is found is the least offset of those that are looked for. -/
theorem FindsLeast.map_eq_some_iff (h : FindsLeast P o b found) {k : Nat} :
    (found.map fun n => o + Text.utf8Length (b.take n)) = some k ↔ IsLeast {k | P k} k := by
  cases found with
  | none => exact iff_of_false (Option.some_ne_none k).symm fun hleast => h k hleast.1
  | some n =>
    have hleast : IsLeast {k | P k} (o + Text.utf8Length (b.take n)) := h
    rw [Option.map_some, Option.some.injEq]
    exact ⟨fun heq => heq ▸ hleast, hleast.unique⟩

end

/-- **The scan with a depth finds the first `</delete>` that closes as many regions.** -/
theorem findsLeast_balancedClose? (depth o : Nat) (b : Text) :
    FindsLeast (Closes depth o b) o b (balancedClose? depth b) := by
  induction b generalizing depth o with
  | nil => exact fun k hk => absurd hk.1 List.not_mem_nil
  | cons c cs ih =>
    rw [balancedClose?_cons]
    cases htag : deleteTag? (c :: cs) with
    | none => exact (ih depth _).cons fun k => closes_cons_none htag
    | some tag =>
      cases tag with
      | opening => exact (ih (depth + 1) _).cons fun k => closes_cons_opening htag
      | closing =>
        cases depth with
        | succ depth => exact (ih depth _).cons fun k => closes_cons_closing htag
        | zero =>
          have hzero : (offsetsFrom deleteOpen (o + c.utf8Size) cs).countP (· < o) = 0 := by
            refine List.countP_eq_zero.2 fun k hk => ?_
            have hlt := lt_of_mem_offsetsFrom hk
            simpa using hlt.le
          refine ⟨?_, fun k hk => le_of_mem_offsetsFrom hk.1⟩
          change Closes 0 o (c :: cs) o
          rw [Closes, offsetsFrom_deleteClose_cons, offsetsFrom_deleteOpen_cons, htag, if_pos rfl,
            if_neg nofun, List.countP_cons, countP_offsetsFrom_le, hzero]
          exact ⟨List.mem_cons_self, by simp⟩

/-- The search for a close stops at the first one. -/
theorem findsLeast_firstClose? (o : Nat) (b : Text) :
    FindsLeast (· ∈ offsetsFrom deleteClose o b) o b (firstClose? b) := by
  induction b generalizing o with
  | nil => exact fun k => List.not_mem_nil
  | cons c cs ih =>
    have hcons := offsetsFrom_deleteClose_cons o c cs
    rw [firstClose?_cons]
    split
    · rename_i htag
      rw [if_pos htag] at hcons
      refine ⟨?_, fun k hk => le_of_mem_offsetsFrom hk⟩
      change o ∈ offsetsFrom deleteClose o (c :: cs)
      rw [hcons]
      exact List.mem_cons_self
    · rename_i htag
      rw [if_neg htag] at hcons
      exact (ih _).cons fun k => by rw [hcons]

/-- Behind a beginning of a text, the scan with no depth finds the `</delete>` that balances. -/
theorem findsLeast_balances (a b : Text) :
    FindsLeast (Balances (a ++ b) a.utf8Length) a.utf8Length b (balancedClose? 0 b) :=
  (findsLeast_balancedClose? 0 a.utf8Length b).congr fun _ => balances_append_iff

/-- The close that is found behind a cut is the first one of the whole text there. -/
theorem findsLeast_occursAt (a b : Text) :
    FindsLeast (fun c => OccursAt deleteClose (a ++ b) c ∧ a.utf8Length ≤ c) a.utf8Length b
      (firstClose? b) := by
  refine (findsLeast_firstClose? a.utf8Length b).congr fun c => ?_
  rw [← mem_offsets deleteClose_ne_nil]
  exact mem_offsets_append

/-! ## Where a region ends -/

/-- The offset of the `</delete>` that ends a region in the text `a ++ b`, if the body of the region
begins behind `a`. -/
def regionEnd? (a b : Text) : Option Nat :=
  (regionLength? b).map fun n => a.utf8Length + Text.utf8Length (b.take n)

/-- **Where a region ends.** Behind any beginning `a` of a text, no region body ends exactly if no
`</delete>` stands there. Otherwise the body ends at the least offset of a `</delete>` that balances
it, by the counts of both tags from `a` on; and if none balances it, at the first `</delete>` behind
`a`. -/
theorem regionEnd?_iff (a b : Text) :
    let u := a ++ b
    let start := a.utf8Length
    (regionEnd? a b = none ↔ ∀ c, OccursAt deleteClose u c → c < start) ∧
      ∀ c, regionEnd? a b = some c ↔
        IsLeast {c | Balances u start c} c ∨
          (∀ c, ¬Balances u start c) ∧ IsLeast {c | OccursAt deleteClose u c ∧ start ≤ c} c := by
  intro u start
  let offset (n : Nat) : Nat := start + Text.utf8Length (b.take n)
  have hbalanced := findsLeast_balances a b
  have hfirst := findsLeast_occursAt a b
  have hend : regionEnd? a b =
      ((balancedClose? 0 b).map offset).or ((firstClose? b).map offset) := by
    rw [regionEnd?, regionLength?]
    cases balancedClose? 0 b <;> rfl
  rw [hend]
  cases hb : (balancedClose? 0 b).map offset with
  | some n =>
    have hleast := hbalanced.map_eq_some_iff.1 hb
    rw [Option.some_or]
    refine ⟨iff_of_false (Option.some_ne_none n) fun hall => ?_, fun c => ?_⟩
    · exact absurd (hall n hleast.1.stands) (not_lt.2 hleast.1.behind)
    · rw [Option.some.injEq]
      constructor
      · rintro rfl
        exact .inl hleast
      · rintro (h | ⟨hno, -⟩)
        · exact hleast.unique h
        · exact absurd hleast.1 (hno n)
  | none =>
    have hno := hbalanced.map_eq_none_iff.1 hb
    rw [Option.none_or]
    refine ⟨?_, fun c => ?_⟩
    · rw [hfirst.map_eq_none_iff]
      exact forall_congr' fun c => by rw [not_and, not_le]
    · rw [hfirst.map_eq_some_iff, or_iff_right fun h => hno c h.1, and_iff_right hno]

/-- Of a `</delete>` for two `<delete>`, the first one ends the region. -/
example : regionEnd? "é<delete>".toList "a<delete>b</delete>c".toList = some 20 := by
  decide +kernel

end Typist
