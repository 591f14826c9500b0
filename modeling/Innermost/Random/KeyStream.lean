/-!
A reproducible sequence of random words: the key stream of the ChaCha cipher
with twelve rounds, under a key that is spread out from a seed of 64 bits.

The stream is a function of the position alone, so any word of it can be had
without the ones before. It consists of blocks that are numbered by a counter
of 64 bits, and therefore has `wordCount` words in all.
-/

namespace Innermost.KeyStream

/-- Sixteen words: the state of the cipher, or one block of its output. -/
abbrev Block := Vector UInt32 16

/-! ### The key -/

/-- The next state of the generator that spreads out the seed, a linear
congruence modulo `2 ^ 64`. -/
def advance (state : UInt64) : UInt64 :=
  state * 6364136223846793005 + 11634580027462260723

/-- The word rotated to the left. -/
def rotateLeft (x : UInt32) (n : UInt32) : UInt32 := (x <<< n) ||| (x >>> (32 - n))

/-- The word rotated to the right. -/
def rotateRight (x : UInt32) (n : UInt32) : UInt32 := (x >>> n) ||| (x <<< ((32 - n) % 32))

/-- The output of the generator that spreads out the seed: the upper bits of the
state, folded and rotated by an amount that the state itself gives. -/
def output (state : UInt64) : UInt32 :=
  rotateRight ((((state >>> 18) ^^^ state) >>> 27).toUInt32) (state >>> 59).toUInt32

/-- Eight words spread out from a seed. -/
def keyOfSeed (seed : UInt64) : Vector UInt32 8 :=
  Vector.ofFn fun i => output (Nat.repeat advance (i.val + 1) seed)

/-! ### Blocks -/

/-- Mixes four words of the state: twice a sum, an exclusive or and a rotation
for each of the two diagonals. -/
def quarterRound (a b c d : Fin 16) (s : Block) : Block :=
  let s := s.set a (s[a] + s[b])
  let s := s.set d (rotateLeft (s[d] ^^^ s[a]) 16)
  let s := s.set c (s[c] + s[d])
  let s := s.set b (rotateLeft (s[b] ^^^ s[c]) 12)
  let s := s.set a (s[a] + s[b])
  let s := s.set d (rotateLeft (s[d] ^^^ s[a]) 8)
  let s := s.set c (s[c] + s[d])
  s.set b (rotateLeft (s[b] ^^^ s[c]) 7)

/-- A round over the columns of the state, written as four rows of four, and one
over its diagonals. -/
def doubleRound (s : Block) : Block :=
  let s := quarterRound 0 4 8 12 s
  let s := quarterRound 1 5 9 13 s
  let s := quarterRound 2 6 10 14 s
  let s := quarterRound 3 7 11 15 s
  let s := quarterRound 0 5 10 15 s
  let s := quarterRound 1 6 11 12 s
  let s := quarterRound 2 7 8 13 s
  quarterRound 3 4 9 14 s

/-- The state from which a block is made: four constants, the key, the number of
the block and two zeros. -/
def initial (key : Vector UInt32 8) (number : UInt64) : Block :=
  #v[0x61707865, 0x3320646e, 0x79622d32, 0x6b206574,
    key[0], key[1], key[2], key[3], key[4], key[5], key[6], key[7],
    number.toUInt32, (number >>> 32).toUInt32, 0, 0]

/-- The block with the given number: twelve rounds, to which the state that they
started from is added. -/
def block (key : Vector UInt32 8) (number : UInt64) : Block :=
  let start := initial key number
  Vector.zipWith (· + ·) (Nat.repeat doubleRound 6 start) start

/-! ### Words -/

/-- The number of words in the stream: eight in each of `2 ^ 64` blocks. -/
def wordCount : Nat := 8 * 18446744073709551616

/-- The word of 64 bits at a position: two neighbouring words of a block, the
first of which is the low half. -/
def word (key : Vector UInt32 8) (position : Nat) : UInt64 :=
  let b := block key (UInt64.ofNat (position / 8))
  let i := 2 * (Fin.ofNat 8 position).val
  have : i + 1 < 16 := by omega
  b[i].toUInt64 ||| (b[i + 1].toUInt64 <<< 32)

end Innermost.KeyStream
