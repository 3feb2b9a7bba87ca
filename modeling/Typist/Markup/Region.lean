import Typist.Markup.Token

/-!
# Where a delete region ends

A region's body starts after `<delete>`. It ends at the `</delete>` that balances it: the first one
with as many `<delete>` before it in the body as other `</delete>`. When the nesting never
balances, the very first `</delete>` ends the region early; when there is none at all, there is no
region.

The scan moves character by character with a depth. No marker starts inside another one, so this
meets each of them exactly once.
-/

namespace Typist

open Token

/-- The distance to the `</delete>` that closes `depth` regions that were opened inside, and then
the one around them. -/
def balancedClose? (depth : Nat) : Text → Option Nat
  | [] => none
  | c :: cs =>
    if deleteClose.isPrefixOf (c :: cs) then
      match depth with
      | 0 => some 0
      | depth + 1 => (balancedClose? depth cs).map (· + 1)
    else if deleteOpen.isPrefixOf (c :: cs) then
      (balancedClose? (depth + 1) cs).map (· + 1)
    else
      (balancedClose? depth cs).map (· + 1)

/-- The distance to the first `</delete>`. -/
def firstClose? : Text → Option Nat
  | [] => none
  | c :: cs =>
    if deleteClose.isPrefixOf (c :: cs) then some 0 else (firstClose? cs).map (· + 1)

/-- The length of the region body that a text starts with: up to the balancing `</delete>`, or else
up to the first one. -/
def regionLength? (s : Text) : Option Nat :=
  match balancedClose? 0 s with
  | some n => some n
  | none => firstClose? s

/-- Where the first `</delete>` is said to be, there it is. -/
theorem deleteClose_at_firstClose? {s : Text} {n : Nat} (h : firstClose? s = some n) :
    ∃ rest, s = s.take n ++ deleteClose ++ rest := by
  induction s generalizing n with
  | nil => simp [firstClose?] at h
  | cons c cs ih =>
    simp only [firstClose?] at h
    split at h
    · rename_i hp
      obtain rfl := Option.some.inj h
      obtain ⟨t, ht⟩ := List.isPrefixOf_iff_prefix.1 hp
      exact ⟨t, by simp [ht]⟩
    · obtain ⟨m, hm, rfl⟩ := Option.map_eq_some_iff.1 h
      obtain ⟨t, ht⟩ := ih hm
      exact ⟨t, by simpa using ht⟩

/-- Where the balancing `</delete>` is said to be, there it is. -/
theorem deleteClose_at_balancedClose? {s : Text} {depth n : Nat}
    (h : balancedClose? depth s = some n) : ∃ rest, s = s.take n ++ deleteClose ++ rest := by
  induction s generalizing depth n with
  | nil => simp [balancedClose?] at h
  | cons c cs ih =>
    simp only [balancedClose?] at h
    split at h
    · rename_i hp
      cases depth with
      | zero =>
        obtain rfl := Option.some.inj h
        obtain ⟨t, ht⟩ := List.isPrefixOf_iff_prefix.1 hp
        exact ⟨t, by simp [ht]⟩
      | succ d =>
        obtain ⟨m, hm, rfl⟩ := Option.map_eq_some_iff.1 h
        obtain ⟨t, ht⟩ := ih hm
        exact ⟨t, by simpa using ht⟩
    · split at h
      · obtain ⟨m, hm, rfl⟩ := Option.map_eq_some_iff.1 h
        obtain ⟨t, ht⟩ := ih hm
        exact ⟨t, by simpa using ht⟩
      · obtain ⟨m, hm, rfl⟩ := Option.map_eq_some_iff.1 h
        obtain ⟨t, ht⟩ := ih hm
        exact ⟨t, by simpa using ht⟩

/-- A body is followed by `</delete>`. -/
theorem deleteClose_at_regionLength? {s : Text} {n : Nat} (h : regionLength? s = some n) :
    s = s.take n ++ deleteClose ++ s.drop (n + deleteClose.length) := by
  have key : ∃ rest, s = s.take n ++ deleteClose ++ rest := by
    unfold regionLength? at h
    split at h
    · rename_i m hm
      obtain rfl := Option.some.inj h
      exact deleteClose_at_balancedClose? hm
    · exact deleteClose_at_firstClose? h
  obtain ⟨rest, hrest⟩ := key
  have hdrop : s.drop n = deleteClose ++ rest := by
    have := List.take_append_drop n s
    rw [List.append_assoc] at hrest
    exact List.append_cancel_left (this.trans hrest)
  rw [← List.drop_drop, hdrop, List.drop_left]
  exact hrest

end Typist
