/-!
The ChaCha stream of 12 rounds as a source of words. Word `n` of the stream is word `n % 16` of
block `n / 16`; the key is drawn from a seed by a permuted linear congruence.
-/

namespace VectorSearch.ChaCha

abbrev Block := Vector UInt32 16

def turnLeft (word : UInt32) (bits : UInt32) : UInt32 :=
  (word <<< bits) ||| (word >>> (32 - bits))

/-- Adds word `b` to word `a`, then mixes word `a` into word `d` and turns that. -/
def halfMix (block : Block) (a b d : Fin 16) (bits : UInt32) : Block :=
  let block := block.set a (block[a] + block[b])
  block.set d (turnLeft (block[d] ^^^ block[a]) bits)

def quarterRound (block : Block) (a b c d : Fin 16) : Block :=
  let block := halfMix block a b d 16
  let block := halfMix block c d b 12
  let block := halfMix block a b d 8
  halfMix block c d b 7

def doubleRound (block : Block) : Block :=
  let block := quarterRound block 0 4 8 12
  let block := quarterRound block 1 5 9 13
  let block := quarterRound block 2 6 10 14
  let block := quarterRound block 3 7 11 15
  let block := quarterRound block 0 5 10 15
  let block := quarterRound block 1 6 11 12
  let block := quarterRound block 2 7 8 13
  quarterRound block 3 4 9 14

def block (key : Vector UInt32 8) (number : Nat) : Block :=
  let low := UInt32.ofNat number
  let high := UInt32.ofNat (number / 0x100000000)
  let start : Block :=
    #v[0x61707865, 0x3320646e, 0x79622d32, 0x6b206574,
      key[0], key[1], key[2], key[3], key[4], key[5], key[6], key[7], low, high, 0, 0]
  let mixed := doubleRound (doubleRound (doubleRound
    (doubleRound (doubleRound (doubleRound start)))))
  mixed.zipWith (· + ·) start

def nextKeyState (state : UInt64) : UInt64 :=
  state * 6364136223846793005 + 11634580027462260723

def keyWord (state : UInt64) : UInt32 :=
  let mixed := (((state >>> 18) ^^^ state) >>> 27).toUInt32
  let turn := (state >>> 59).toUInt32
  (mixed >>> turn) ||| (mixed <<< ((32 - turn) % 32))

def keyState (seed : UInt64) : Nat → UInt64
  | 0 => seed
  | count + 1 => nextKeyState (keyState seed count)

def key (seed : UInt64) : Vector UInt32 8 :=
  Vector.ofFn fun place => keyWord (keyState seed (place + 1))

structure Stream where
  key : Vector UInt32 8
  position : Nat

def Stream.ofSeed (seed : UInt64) : Stream := ⟨ChaCha.key seed, 0⟩

def Stream.next (stream : Stream) : UInt32 × Stream :=
  have bound : stream.position % 16 < 16 := Nat.mod_lt _ (by decide)
  ((block stream.key (stream.position / 16))[stream.position % 16],
    { stream with position := stream.position + 1 })

def Stream.nextWide (stream : Stream) : UInt64 × Stream :=
  let (low, stream) := stream.next
  let (high, stream) := stream.next
  (high.toUInt64 <<< 32 ||| low.toUInt64, stream)

end VectorSearch.ChaCha
