/-! Sources of random numbers, and shuffling. The source of a run is a linear congruential
generator of full period that shows the upper half of its state. -/
namespace Wordhoard

/-- A source with states in `ρ` draws a number below a bound, and has another state then. -/
class RandomSource (ρ : Type) where
  below : Nat → ρ → Nat × ρ

namespace RandomSource

variable {α ρ : Type} [RandomSource ρ]

/-- Swaps each item from the given one down to the second with one at or before it. -/
def shuffleFrom : Nat → Array α → ρ → Array α × ρ
  | 0, items, r => (items, r)
  | i + 1, items, r =>
    let (j, r) := below (i + 2) r
    shuffleFrom i (items.swapIfInBounds (i + 1) j) r

def shuffle (items : List α) (r : ρ) : List α × ρ :=
  let (shuffled, r) := shuffleFrom (items.length - 1) items.toArray r
  (shuffled.toList, r)

end RandomSource

structure Random where
  state : UInt64
  deriving DecidableEq, Repr

namespace Random

def draw (r : Random) : UInt32 × Random :=
  let state := r.state * 6364136223846793005 + 1442695040888963407
  ((state >>> 32).toUInt32, ⟨state⟩)

/-- The greatest low half of a product that is taken for a range: below it every result is equally
likely. -/
def zone (range : Nat) : Nat := (range <<< (32 - (range.log2 + 1))) - 1

def drawBelow (range : Nat) : Nat → Random → Nat × Random
  | 0, r => (0, r)
  | tries + 1, r =>
    let (v, r) := r.draw
    let product := v.toNat * range
    if product % UInt32.size ≤ zone range then (product / UInt32.size, r) else drawBelow range tries r

/-- A number below `range`. The source shows every number in one period, so a period of tries
suffices. -/
def below (range : Nat) (r : Random) : Nat × Random := drawBelow range UInt64.size r

instance : RandomSource Random := ⟨below⟩

end Random

end Wordhoard
