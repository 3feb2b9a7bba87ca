/-!
# The ChaCha stream with twelve rounds

A block is sixteen words of 32 bits: four constant words, the eight words of the key, the number of
the block in two words, and two zeros. Twelve rounds stir it, in pairs of one round over the columns
and one over the diagonals, and the start of the block is added to the result.
-/

namespace Typist.ChaCha

/-- The words that the stream is made from. -/
abbrev Key := Vector UInt32 8

/-- The key of nothing but zeros. -/
def Key.zero : Key := .replicate 8 0

/-- Sixteen words, four rows of four. -/
abbrev Block := Vector UInt32 16

/-- A word with its bits moved `n` places towards the high end and around. -/
def rotateLeft (w n : UInt32) : UInt32 :=
  (w <<< n) ||| (w >>> (32 - n))

/-- Stirs four words of a block. -/
def quarter (a b c d : Fin 16) (v : Block) : Block :=
  let v := v.set a (v[a] + v[b])
  let v := v.set d (rotateLeft (v[d] ^^^ v[a]) 16)
  let v := v.set c (v[c] + v[d])
  let v := v.set b (rotateLeft (v[b] ^^^ v[c]) 12)
  let v := v.set a (v[a] + v[b])
  let v := v.set d (rotateLeft (v[d] ^^^ v[a]) 8)
  let v := v.set c (v[c] + v[d])
  v.set b (rotateLeft (v[b] ^^^ v[c]) 7)

/-- A round over the columns and a round over the diagonals. -/
def doubleRound (v : Block) : Block :=
  let v := quarter 0 4 8 12 v
  let v := quarter 1 5 9 13 v
  let v := quarter 2 6 10 14 v
  let v := quarter 3 7 11 15 v
  let v := quarter 0 5 10 15 v
  let v := quarter 1 6 11 12 v
  let v := quarter 2 7 8 13 v
  quarter 3 4 9 14 v

/-- A block before it is stirred. -/
def start (key : Key) (number : UInt64) : Block :=
  #v[0x61707865, 0x3320646e, 0x79622d32, 0x6b206574,
    key[0], key[1], key[2], key[3], key[4], key[5], key[6], key[7],
    number.toUInt32, (number >>> 32).toUInt32, 0, 0]

/-- A block of the stream. -/
def block (key : Key) (number : UInt64) : Block :=
  let v := start key number
  let stirred := (doubleRound ∘ doubleRound ∘ doubleRound ∘ doubleRound ∘ doubleRound ∘ doubleRound) v
  v.zipWith (· + ·) stirred

/-- A word of the stream, counted from its start. -/
def word (key : Key) (index : Nat) : UInt32 :=
  (block key (UInt64.ofNat (index / 16)))[(⟨index % 16, Nat.mod_lt _ (by decide)⟩ : Fin 16)]

end Typist.ChaCha
