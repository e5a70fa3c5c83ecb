/-!
# The random source

A source is a place in a stream of words. The stream is that of a block cipher in counter
mode: block `n` is the mixed state of constants, key and the counter `n`, and the blocks of
sixteen words follow one another. `Source.draw` reads one word and makes a number from zero
up to one of its upper 24 bits. Two sources with the same key and place give the same
draws, which is all that a run depends on.
-/

namespace Dataflow.Random

/-- The sixteen words that are mixed into a block of the stream. -/
abbrev Block := Vector UInt32 16

/-- The word with its bits moved up by `n` places, those that fall out coming in below. -/
def rotateLeft (x : UInt32) (n : UInt32) : UInt32 :=
  (x <<< n) ||| (x >>> (32 - n))

/-- The word with its bits moved down by `n` places, those that fall out coming in above. -/
def rotateRight (x : UInt32) (n : UInt32) : UInt32 :=
  (x >>> n) ||| (x <<< (32 - n))

/-- Mixes four words of the state. -/
def quarterRound (a b c d : Fin 16) (s : Block) : Block :=
  let s := s.set a (s[a] + s[b])
  let s := s.set d (rotateLeft (s[d] ^^^ s[a]) 16)
  let s := s.set c (s[c] + s[d])
  let s := s.set b (rotateLeft (s[b] ^^^ s[c]) 12)
  let s := s.set a (s[a] + s[b])
  let s := s.set d (rotateLeft (s[d] ^^^ s[a]) 8)
  let s := s.set c (s[c] + s[d])
  s.set b (rotateLeft (s[b] ^^^ s[c]) 7)

/-- One round over the columns of the state and one over its diagonals. -/
def doubleRound (s : Block) : Block :=
  let s := quarterRound 0 4 8 12 s
  let s := quarterRound 1 5 9 13 s
  let s := quarterRound 2 6 10 14 s
  let s := quarterRound 3 7 11 15 s
  let s := quarterRound 0 5 10 15 s
  let s := quarterRound 1 6 11 12 s
  let s := quarterRound 2 7 8 13 s
  quarterRound 3 4 9 14 s

/-- The key of a stream. -/
abbrev Key := Vector UInt32 8

/-- The state before mixing: constants, key, the 64 bits of the counter and two zeros. -/
def initialState (key : Key) (counter : Nat) : Block :=
  #v[0x61707865, 0x3320646e, 0x79622d32, 0x6b206574,
     key[0], key[1], key[2], key[3], key[4], key[5], key[6], key[7],
     .ofNat counter, .ofNat (counter >>> 32), 0, 0]

/-- Block `counter` of the stream, mixed in twelve rounds. -/
def block (key : Key) (counter : Nat) : Block :=
  let start := initialState key counter
  let mixed := Nat.repeat doubleRound 6 start
  Vector.zipWith (· + ·) mixed start

/-- Word `n` of the stream. -/
def word (key : Key) (n : Nat) : UInt32 :=
  (block key (n / 16))[n % 16]

/-- The next state of the generator that turns a seed into a key. -/
def advanceSeed (s : UInt64) : UInt64 :=
  s * 6364136223846793005 + 11634580027462260723

/-- The word that a state of that generator gives out. -/
def scrambleSeed (s : UInt64) : UInt32 :=
  rotateRight (((s >>> 18) ^^^ s) >>> 27).toUInt32 (s >>> 59).toUInt32

/-- The key made from a seed. -/
def keyOfSeed (seed : UInt64) : Key :=
  .ofFn fun i => scrambleSeed (Nat.repeat advanceSeed (i + 1) seed)

/-- A place in a stream of words: the key of the stream, and how many words have been drawn. -/
structure Source where
  key : Key
  position : Nat
deriving DecidableEq

namespace Source

/-- The start of the stream that belongs to a seed. -/
def ofSeed (seed : UInt64) : Source := ⟨keyOfSeed seed, 0⟩

/-- A number from zero up to, but not including, one, and the source after it. -/
def draw (s : Source) : Float32 × Source :=
  ((word s.key s.position >>> 8).toFloat32 / 16777216, { s with position := s.position + 1 })

end Source

end Dataflow.Random
