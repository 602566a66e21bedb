/-!
# Keystreams

Shuffles take their random words from the ChaCha stream cipher with twenty rounds. The 64-bit seed
is spread over the key by a permuted congruential generator; the nonce is zero. The word at a given
position depends on the seed and on the position alone.

* `Keystream.wordAt` — the stream as a function of seed and position.
* `Keystream` — a seed and the position of the next word.
* `Keystream.below` — a number below a bound, drawn from one or two words.
-/

namespace CaliforniaPoker

/-- The sixteen words that the cipher works on. -/
abbrev CipherBlock : Type := Vector UInt32 16

namespace CipherBlock

/-- A word with its bits moved to the left, those that leave it coming back on the right. -/
def rotate (w n : UInt32) : UInt32 := (w <<< n) ||| (w >>> (32 - n))

/-- The mixing of four words of the block. -/
def quarterRound (b : CipherBlock) (i j k l : Fin 16) : CipherBlock :=
  let (p, q, r, s) := (b[i], b[j], b[k], b[l])
  let p := p + q
  let s := rotate (s ^^^ p) 16
  let r := r + s
  let q := rotate (q ^^^ r) 12
  let p := p + q
  let s := rotate (s ^^^ p) 8
  let r := r + s
  let q := rotate (q ^^^ r) 7
  (((b.set i p).set j q).set k r).set l s

/-- One round over the columns and one over the diagonals. -/
def doubleRound (b : CipherBlock) : CipherBlock :=
  let b := b.quarterRound 0 4 8 12
  let b := b.quarterRound 1 5 9 13
  let b := b.quarterRound 2 6 10 14
  let b := b.quarterRound 3 7 11 15
  let b := b.quarterRound 0 5 10 15
  let b := b.quarterRound 1 6 11 12
  let b := b.quarterRound 2 7 8 13
  b.quarterRound 3 4 9 14

/-- The output of the cipher for an input block: twenty rounds, then the input added back. -/
def scramble (b : CipherBlock) : CipherBlock :=
  Vector.zipWith (· + ·) (Nat.repeat doubleRound 10 b) b

end CipherBlock

namespace Keystream

/-- The next state of the generator that spreads the seed. -/
def nextState (state : UInt64) : UInt64 := state * 6364136223846793005 + 11634580027462260723

/-- The word that the generator gives out in a state. -/
def stateWord (state : UInt64) : UInt32 :=
  let w := (((state >>> 18) ^^^ state) >>> 27).toUInt32
  let n := (state >>> 59).toUInt32
  (w >>> n) ||| (w <<< ((32 - n) % 32))

/-- The `n`-th word of the key that belongs to a seed. -/
def keyWord (seed : UInt64) (n : Nat) : UInt32 := stateWord (Nat.repeat nextState (n + 1) seed)

/-- The input block with a given number: constants, key, block number and a zero nonce. -/
def inputBlock (seed : UInt64) (number : Nat) : CipherBlock :=
  let key := keyWord seed
  #v[0x61707865, 0x3320646E, 0x79622D32, 0x6B206574,
    key 0, key 1, key 2, key 3, key 4, key 5, key 6, key 7,
    UInt32.ofNat number, UInt32.ofNat (number / UInt32.size), 0, 0]

/-- The word at a position of the stream that belongs to a seed. -/
def wordAt (seed : UInt64) (position : Nat) : UInt32 :=
  (inputBlock seed (position / 16)).scramble[position % 16]

end Keystream

/-- A stream of words that has been read up to a position. -/
structure Keystream where
  /-- The seed that determines the stream. -/
  seed : UInt64
  /-- The position of the next word. -/
  position : Nat
  deriving DecidableEq

namespace Keystream

/-- The stream of a seed from its start. -/
def ofSeed (seed : UInt64) : Keystream := { seed, position := 0 }

/-- The next word. -/
def next (k : Keystream) : Nat × Keystream :=
  ((wordAt k.seed k.position).toNat, { k with position := k.position + 1 })

/-- A number below a bound: a word scaled to the bound. When the fraction that is cut off is so
large that a second word could carry over, that word is read too. -/
def below (bound : Nat) (k : Keystream) : Nat × Keystream :=
  let (word, k) := k.next
  let whole := word * bound / UInt32.size
  let fraction := word * bound % UInt32.size
  if UInt32.size - bound < fraction then
    let (word, k) := k.next
    let carry := (fraction + word * bound / UInt32.size) / UInt32.size
    (whole + carry, k)
  else (whole, k)

end Keystream

end CaliforniaPoker
