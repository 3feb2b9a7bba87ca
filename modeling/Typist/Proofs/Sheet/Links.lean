import Typist.Sheet

/-!
# Links that fit together

A sheet lets its user link nodes as he likes. A run uses little of this freedom: it hangs up each
node once, when it has just been made, and from then on at most takes it off. The links of a sheet
that is only used like this fit together:

* `Sheet.Sound` — each child knows its parent, children are newer than their parents and stand in
  the order in which they were made, and what hangs below a node is older than the siblings behind
  that node;
* `Sheet.Accepts` — a node that a new one can be hung from without breaking this order;
* `Sheet.Sound.hang`, `Sheet.Sound.remove` — the two operations keep a sheet sound.
-/

namespace Typist

theorem Node.root_le (n : Node) : Node.root ≤ n := Nat.zero_le n

theorem Node.root_lt {n : Node} (h : n ≠ Node.root) : Node.root < n := Nat.pos_of_ne_zero h

namespace Sheet

/-- The links of a sheet fit together. -/
structure Sound (s : Sheet) : Prop where
  pos : 0 < s.size
  root : s.kind .root = .root
  kind_ne : ∀ {n : Node}, n < s.size → n ≠ .root → s.kind n ≠ .root
  /-- a node is newer than the one it hangs from -/
  older : ∀ {n p}, s.parent? n = some p → p < n
  mem_iff : ∀ {n p}, n ∈ (s.slot p).lastFirst ↔ s.parent? n = some p
  sorted : ∀ p, (s.slot p).lastFirst.Pairwise (· > ·)
  /-- nothing hangs from a glyph -/
  leaf : ∀ {n value}, s.kind n = .glyph value → (s.slot n).lastFirst = []
  /-- between a node and its parent only nodes were hung up that hang there too, or lower -/
  nested : ∀ {b p u q}, s.parent? b = some p → s.parent? u = some q → q < b → b < u → q ≤ p

/-- A node that new ones can be hung from: whatever is newer hangs there too, or lower. -/
structure Accepts (s : Sheet) (p : Node) : Prop where
  lt_size : p < s.size
  kind_ne : ∀ value, s.kind p ≠ .glyph value
  late : ∀ {b q}, s.parent? b = some q → p < b → p ≤ q

/-! ## What is in use -/

section

variable {s : Sheet} {n p : Node}

/-- Behind the nodes that were made there is nothing. -/
theorem slot_of_size_le (h : s.size ≤ n) : s.slot n = { kind := .root } := by
  rw [slot, Array.getElem?_eq_none h]
  rfl

/-- What hangs somewhere is in use. -/
theorem lt_size_of_parent? (h : s.parent? n = some p) : n < s.size := by
  refine Nat.lt_of_not_le fun hn => ?_
  rw [parent?, slot_of_size_le hn] at h
  cases h

/-- What shows something was made. -/
theorem lt_size_of_kind (h : s.kind n ≠ .root) : n < s.size := by
  refine Nat.lt_of_not_le fun hn => ?_
  rw [kind, slot_of_size_le hn] at h
  exact h rfl

theorem lt_size_of_glyph {value : Char} (h : s.kind n = .glyph value) : n < s.size :=
  lt_size_of_kind (by rw [h]; exact Kind.noConfusion)

/-- Only a container has a tag. -/
theorem tag?_eq_some_iff {tag : Tag} : s.tag? n = some tag ↔ s.kind n = .container tag := by
  unfold tag?
  cases s.kind n <;> simp

theorem Sound.parent?_lt_size (hs : Sound s) (h : s.parent? n = some p) : p < s.size :=
  Nat.lt_trans (hs.older h) (lt_size_of_parent? h)

/-- The root of a sound sheet hangs from nothing. -/
theorem Sound.parent?_root (hs : Sound s) : s.parent? .root = none := by
  cases h : s.parent? .root with
  | none => rfl
  | some p => exact absurd (hs.older h) (Nat.not_lt_zero p)

/-- What hangs from something is not the root. -/
theorem Sound.ne_root (hs : Sound s) (h : s.parent? n = some p) : n ≠ .root := by
  rintro rfl
  rw [hs.parent?_root] at h
  cases h

theorem Sound.ne_root_of_glyph (hs : Sound s) {value : Char} (h : s.kind n = .glyph value) :
    n ≠ .root := by
  rintro rfl
  rw [hs.root] at h
  cases h

/-- A node has children if there are some in its slot. -/
theorem childCount_pos_iff : 0 < s.childCount n ↔ (s.slot n).lastFirst ≠ [] := by
  rw [childCount, List.length_pos_iff]

end

/-! ## Hanging up a new node -/

/-- A sheet with a new node that hangs from one that was there. -/
def hang (s : Sheet) (p : Node) (k : Kind) : Sheet :=
  (s.create k).2.append p s.size

section

variable {s : Sheet} {p : Node} {k : Kind}

@[simp] theorem size_hang (s : Sheet) (p : Node) (k : Kind) : (s.hang p k).size = s.size + 1 := by
  rw [hang, size_append]
  simp [create, size]

/-- A new node that is hung up changes its own slot and the one that it is hung from. -/
theorem slot_hang (hp : p < s.size) (n : Node) :
    (s.hang p k).slot n =
      if n = s.size then { kind := k, parent := some p }
      else if n = p then { s.slot p with lastFirst := s.size :: (s.slot p).lastFirst }
      else s.slot n := by
  have hsize : (s.create k).2.size = s.size + 1 := by simp [create, size]
  have hdetach : (s.create k).2.detach s.size = (s.create k).2 := by
    simp [detach, parent?, slot_create]
  rw [hang, append, hdetach, slot_revised, slot_setParent _ _ _ _ (by simp [hsize]),
    slot_mapChildren _ _ _ _ (hsize ▸ Nat.lt_succ_of_lt hp), slot_create]
  by_cases hn : n = s.size
  · simp [hn, Nat.ne_of_gt hp]
  · by_cases hnp : n = p
    · subst hnp
      simp [hn]
    · simp [hn, hnp]

/-- Of the kinds, one is new. -/
theorem kind_hang (hp : p < s.size) (n : Node) :
    (s.hang p k).kind n = if n = s.size then k else s.kind n := by
  rw [kind, slot_hang hp]
  split
  · rfl
  · split
    · rename_i h
      rw [h]
      rfl
    · rfl

/-- Of the parents, one is new. -/
theorem parent?_hang (hp : p < s.size) (n : Node) :
    (s.hang p k).parent? n = if n = s.size then some p else s.parent? n := by
  rw [parent?, slot_hang hp]
  split
  · rfl
  · split
    · rename_i h
      rw [h]
      rfl
    · rfl

/-- Of the lists of children, one has a new first member. -/
theorem lastFirst_hang (hp : p < s.size) (n : Node) :
    ((s.hang p k).slot n).lastFirst =
      if n = p then s.size :: (s.slot n).lastFirst else (s.slot n).lastFirst := by
  rw [slot_hang hp]
  by_cases hn : n = s.size
  · rw [if_pos hn, if_neg (by grind), slot_of_size_le (Nat.le_of_eq hn.symm)]
  · rw [if_neg hn]
    split
    · rename_i h
      rw [h]
    · rfl

/-- A node that was there has the parent that it had. -/
theorem parent?_hang_of_lt (hp : p < s.size) {n : Node} (hn : n < s.size) :
    (s.hang p k).parent? n = s.parent? n := by
  rw [parent?_hang hp, if_neg (Nat.ne_of_lt hn)]

theorem kind_hang_of_lt (hp : p < s.size) {n : Node} (hn : n < s.size) :
    (s.hang p k).kind n = s.kind n := by
  rw [kind_hang hp, if_neg (Nat.ne_of_lt hn)]

/-- A new node below one that accepts it leaves the sheet sound. -/
theorem Sound.hang (hs : Sound s) (hp : s.Accepts p) (hk : k ≠ .root) : Sound (s.hang p k) where
  pos := by
    rw [size_hang]
    exact Nat.succ_pos _
  root := by exact (kind_hang_of_lt hp.lt_size hs.pos).trans hs.root
  kind_ne := by
    intro n hn hroot
    rw [size_hang] at hn
    rw [kind_hang hp.lt_size]
    split
    · exact hk
    · exact hs.kind_ne (by grind) hroot
  older := by
    intro n q h
    rw [parent?_hang hp.lt_size] at h
    split at h
    · rename_i hn
      cases h
      rw [hn]
      exact hp.lt_size
    · exact hs.older h
  mem_iff := by
    intro n q
    rw [parent?_hang hp.lt_size, lastFirst_hang hp.lt_size]
    have hnew : s.size ∉ (s.slot q).lastFirst := by
      intro h
      exact absurd (lt_size_of_parent? (hs.mem_iff.1 h)) (Nat.lt_irrefl _)
    by_cases hn : n = s.size
    · subst hn
      by_cases hq : q = p
      · simp [hq]
      · simp [hq, hnew, Ne.symm hq]
    · by_cases hq : q = p
      · simp [hq, hn, hs.mem_iff]
      · simp [hq, hn, hs.mem_iff]
  sorted := by
    intro q
    rw [lastFirst_hang hp.lt_size]
    split
    · refine List.pairwise_cons.2 ⟨?_, hs.sorted q⟩
      intro n hn
      exact lt_size_of_parent? (hs.mem_iff.1 hn)
    · exact hs.sorted q
  leaf := by
    intro n value h
    rw [kind_hang hp.lt_size] at h
    rw [lastFirst_hang hp.lt_size]
    split at h
    · rename_i hn
      have hlt := hp.lt_size
      rw [if_neg (by grind), slot_of_size_le (Nat.le_of_eq hn.symm)]
    · rw [if_neg, hs.leaf h]
      rintro rfl
      exact hp.kind_ne value h
  nested := by
    intro b q u r hb hu hrb hbu
    have hlt := lt_size_of_parent? hu
    rw [size_hang] at hlt
    -- of the two nodes only the later one can be the new one
    rw [parent?_hang hp.lt_size, if_neg (by grind)] at hb
    rw [parent?_hang hp.lt_size] at hu
    split at hu
    · cases hu
      exact hp.late hb hrb
    · exact hs.nested hb hu hrb hbu

/-- What accepted new nodes still does, if the new one does not hang above it. -/
theorem Accepts.hang {q : Node} (hq : s.Accepts q) (hp : p < s.size) (hqp : q ≤ p) :
    (s.hang p k).Accepts q where
  lt_size := by
    rw [size_hang]
    exact Nat.lt_succ_of_lt hq.lt_size
  kind_ne := by
    rw [kind_hang_of_lt hp hq.lt_size]
    exact hq.kind_ne
  late := by
    intro b r hb hlt
    rw [parent?_hang hp] at hb
    split at hb
    · cases hb
      exact hqp
    · exact hq.late hb hlt

/-- A new container accepts new nodes. -/
theorem Accepts.hang_self (hp : p < s.size) (hk : ∀ value, k ≠ .glyph value) :
    (s.hang p k).Accepts s.size where
  lt_size := by
    rw [size_hang]
    exact Nat.lt_succ_self _
  kind_ne := by
    rw [kind_hang hp, if_pos rfl]
    exact hk
  late := by
    intro b r hb hlt
    have hb := lt_size_of_parent? hb
    rw [size_hang] at hb
    grind

/-- The root accepts new nodes. -/
theorem Sound.accepts_root (hs : Sound s) : s.Accepts .root where
  lt_size := hs.pos
  kind_ne := by
    intro value h
    rw [hs.root] at h
    cases h
  late := fun _ _ => Node.root_le _

end

/-! ## Taking a node off -/

section

variable {s : Sheet} {p c : Node}

/-- What has children was made. -/
theorem lt_size_of_mem (hmem : c ∈ (s.slot p).lastFirst) : p < s.size := by
  refine Nat.lt_of_not_le fun hle => ?_
  rw [slot_of_size_le hle] at hmem
  cases hmem

/-- A node that is taken off changes its own slot and the one that it was taken from. -/
theorem slot_remove (hmem : c ∈ (s.slot p).lastFirst) (hc : c < s.size) (n : Node) :
    (s.remove p c).slot n =
      { kind := s.kind n
        parent := if n = c then none else s.parent? n
        lastFirst := if n = p then (s.slot n).lastFirst.erase c else (s.slot n).lastFirst } := by
  rw [remove, if_pos hmem, slot_revised, slot_setParent _ _ _ _ (by simpa using hc),
    slot_mapChildren _ _ _ _ (lt_size_of_mem hmem)]
  by_cases hn : n = c
  · rw [if_pos hn, if_pos hn]
    split <;> rfl
  · rw [if_neg hn, if_neg hn]
    split <;> rfl

/-- A node that is taken off keeps its kind, and so do all others. -/
theorem kind_remove (hmem : c ∈ (s.slot p).lastFirst) (hc : c < s.size) (n : Node) :
    (s.remove p c).kind n = s.kind n := by
  rw [kind, slot_remove hmem hc]

/-- A node that is taken off hangs from nothing; the others hang where they did. -/
theorem parent?_remove (hmem : c ∈ (s.slot p).lastFirst) (hc : c < s.size) (n : Node) :
    (s.remove p c).parent? n = if n = c then none else s.parent? n := by
  rw [parent?, slot_remove hmem hc]

/-- One list of children has lost a member. -/
theorem lastFirst_remove (hmem : c ∈ (s.slot p).lastFirst) (hc : c < s.size) (n : Node) :
    ((s.remove p c).slot n).lastFirst =
      if n = p then (s.slot n).lastFirst.erase c else (s.slot n).lastFirst := by
  rw [slot_remove hmem hc]

theorem Sound.kind_remove (hs : Sound s) (h : s.parent? c = some p) (n : Node) :
    (s.remove p c).kind n = s.kind n :=
  Sheet.kind_remove (hs.mem_iff.2 h) (lt_size_of_parent? h) n

theorem Sound.parent?_remove (hs : Sound s) (h : s.parent? c = some p) (n : Node) :
    (s.remove p c).parent? n = if n = c then none else s.parent? n :=
  Sheet.parent?_remove (hs.mem_iff.2 h) (lt_size_of_parent? h) n

theorem Sound.lastFirst_remove (hs : Sound s) (h : s.parent? c = some p) (n : Node) :
    ((s.remove p c).slot n).lastFirst =
      if n = p then (s.slot n).lastFirst.erase c else (s.slot n).lastFirst :=
  Sheet.lastFirst_remove (hs.mem_iff.2 h) (lt_size_of_parent? h) n

/-- A link that is there after a node was taken off was there before. -/
theorem Sound.parent?_of_remove (hs : Sound s) (h : s.parent? c = some p) {n q : Node}
    (hn : (s.remove p c).parent? n = some q) : n ≠ c ∧ s.parent? n = some q := by
  rw [hs.parent?_remove h] at hn
  split at hn
  · cases hn
  · exact ⟨‹_›, hn⟩

/-- Taking a node off leaves the sheet sound. -/
theorem Sound.remove (hs : Sound s) (h : s.parent? c = some p) : Sound (s.remove p c) where
  pos := by
    rw [size_remove]
    exact hs.pos
  root := by rw [hs.kind_remove h, hs.root]
  kind_ne := by
    intro n hn hroot
    rw [size_remove] at hn
    rw [hs.kind_remove h]
    exact hs.kind_ne hn hroot
  older := fun hn => hs.older (hs.parent?_of_remove h hn).2
  mem_iff := by
    intro n q
    rw [hs.parent?_remove h, hs.lastFirst_remove h]
    have hnodup : (s.slot q).lastFirst.Nodup := (hs.sorted q).imp Nat.ne_of_gt
    by_cases hq : q = p
    · subst hq
      rw [if_pos rfl, hnodup.mem_erase_iff, hs.mem_iff]
      by_cases hn : n = c
      · simp [hn]
      · simp [hn]
    · rw [if_neg hq, hs.mem_iff]
      by_cases hn : n = c
      · subst hn
        simp [h, Ne.symm hq]
      · simp [hn]
  sorted := by
    intro q
    rw [hs.lastFirst_remove h]
    split
    · exact (hs.sorted q).sublist List.erase_sublist
    · exact hs.sorted q
  leaf := by
    intro n value hk
    rw [hs.kind_remove h] at hk
    rw [hs.lastFirst_remove h, hs.leaf hk]
    split <;> rfl
  nested := fun hb hu =>
    hs.nested (hs.parent?_of_remove h hb).2 (hs.parent?_of_remove h hu).2

/-- A place to hang nodes from is one still when another node was taken off. -/
theorem Accepts.remove {q : Node} (hq : s.Accepts q) (hs : Sound s) (h : s.parent? c = some p) :
    (s.remove p c).Accepts q where
  lt_size := by
    rw [size_remove]
    exact hq.lt_size
  kind_ne := by
    rw [hs.kind_remove h]
    exact hq.kind_ne
  late := fun hb => hq.late (hs.parent?_of_remove h hb).2

end

/-- A blank sheet is sound. -/
theorem sound_blank : Sound blank where
  pos := Nat.one_pos
  root := rfl
  kind_ne := by
    intro n hn hroot
    exact absurd (Nat.lt_one_iff.1 hn) hroot
  older := by
    intro n p h
    have hn := lt_size_of_parent? h
    cases Nat.lt_one_iff.1 hn
    cases h
  mem_iff := by
    intro n p
    have hslot (n : Node) : blank.slot n = { kind := .root } := by
      cases n with
      | zero => rfl
      | succ n => exact slot_of_size_le (Nat.succ_le_succ (Nat.zero_le n))
    simp [parent?, hslot]
  sorted := by
    intro p
    cases p with
    | zero => exact List.Pairwise.nil
    | succ p =>
      rw [slot_of_size_le (Nat.succ_le_succ (Nat.zero_le p))]
      exact List.Pairwise.nil
  leaf := by
    intro n value h
    have hn : n < blank.size := lt_size_of_kind (by rw [h]; exact Kind.noConfusion)
    cases Nat.lt_one_iff.1 hn
    rfl
  nested := by
    intro b p u q hb
    have hn := lt_size_of_parent? hb
    cases Nat.lt_one_iff.1 hn
    cases hb

end Sheet

end Typist
