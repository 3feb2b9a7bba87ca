import Typist.Random.ChaCha

/-!
# Draws

A generator gives numbers between -1 and 1, both possible, in an order that its key decides: each draw
takes the next two words of the ChaCha stream of that key. A seed is spread over a key by a
congruential generator.
-/

namespace Typist

/-- A source of draws: the key of its stream, and how many draws were taken. -/
structure Generator where
  key : ChaCha.Key
  drawn : Nat

namespace Generator

/-- The next state when a seed is spread. -/
def spread (state : UInt64) : UInt64 :=
  state * 6364136223846793005 + 11634580027462260723

/-- The word of the key that a state gives. -/
def keyWord (state : UInt64) : UInt32 :=
  let mixed := (((state >>> 18) ^^^ state) >>> 27).toUInt32
  let turn := (state >>> 59).toUInt32
  (mixed >>> turn) ||| (mixed <<< ((32 - turn) % 32))

/-- The words that the states behind `state` give. -/
def keyWords : (count : Nat) → (state : UInt64) → List UInt32
  | 0, _ => []
  | count + 1, state => keyWord (spread state) :: keyWords count (spread state)

theorem length_keyWords (count : Nat) (state : UInt64) :
    (keyWords count state).length = count := by
  induction count generalizing state with
  | zero => rfl
  | succ count ih => simp [keyWords, ih]

/-- The generator of a key, with nothing drawn. -/
def ofKey (key : ChaCha.Key) : Generator where
  key := key
  drawn := 0

/-- The generator of a seed, with nothing drawn. -/
def ofSeed (seed : UInt64) : Generator :=
  .ofKey ⟨(keyWords 8 seed).toArray, by simp [length_keyWords]⟩

/-- The number between -1 and 1 for 64 bits of the stream: 52 of them after the point of a number
between 1 and 2, stretched and moved. -/
def toUnit (bits : UInt64) : Float :=
  (Float.ofBits ((0x3FF0000000000000 : UInt64) ||| (bits >>> 12)) - 1.0) * Float.ofBits 0x4000000000000001
    + (-1.0)

/-- The next draw. -/
def draw (g : Generator) : Float × Generator :=
  let low := (ChaCha.word g.key (2 * g.drawn)).toUInt64
  let high := (ChaCha.word g.key (2 * g.drawn + 1)).toUInt64
  (toUnit (low ||| (high <<< 32)), { g with drawn := g.drawn + 1 })

end Generator

end Typist
