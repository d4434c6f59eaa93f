import VectorSearch.Random.ChaCha
/-!
Draws. A source of draws picks positions and fractions; whoever draws relies on their ranges and
on nothing else. The seeded source takes them from a ChaCha stream.
-/

namespace VectorSearch

structure DrawSource (σ : Type) where
  position : (bound : Nat) → 0 < bound → σ → Fin bound × σ
  fraction : σ → Float32 × σ

namespace DrawSource

/-- The greatest low half of a product that a draw below `bound` accepts: the greatest multiple
of the bound by a power of two, less one. -/
def acceptedZone (bound : Nat) : Nat :=
  bound * Nat.pow 2 (63 - Nat.log2 bound) - 1

/-- Draws wide words until the low half of the word's product with the bound is accepted, and
answers the high half. The draws of a library go on for as long as it takes; here the next word is
taken as it is after `attempts` rejections, each of which has a chance of at most one half. -/
def positionFrom (bound : Nat) (positive : 0 < bound) :
    (attempts : Nat) → ChaCha.Stream → Fin bound × ChaCha.Stream
  | 0, stream =>
    let (word, stream) := stream.nextWide
    (⟨word.toNat % bound, Nat.mod_lt _ positive⟩, stream)
  | attempts + 1, stream =>
    let (word, next) := stream.nextWide
    let product := word.toNat * bound
    if product % 0x10000000000000000 ≤ acceptedZone bound then
      (⟨product / 0x10000000000000000, by
        have small : word.toNat < 0x10000000000000000 := word.toNat_lt
        exact Nat.div_lt_of_lt_mul (Nat.mul_lt_mul_of_pos_right small positive)⟩, next)
    else positionFrom bound positive attempts next

def seeded : DrawSource ChaCha.Stream where
  position bound positive stream := positionFrom bound positive 1024 stream
  fraction stream :=
    let (word, stream) := stream.next
    ((word >>> 8).toFloat32 * Float32.ofBits 0x33800000, stream)

end DrawSource

end VectorSearch
