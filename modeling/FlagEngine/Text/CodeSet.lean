/-! Sets of characters as sorted lists of bounds: a character belongs to the set iff an odd number
of bounds are not above it, so that the bounds alternately open and close a range. -/
namespace FlagEngine

structure CodeSet where
  bounds : Array Nat

namespace CodeSet

/-- The number of bounds in `[low, high)` that are not above `code`, found by halving. -/
def rank (bounds : Array Nat) (code : Nat) : Nat → Nat → Nat → Nat
  | 0, low, _ => low
  | fuel + 1, low, high =>
    if low < high then
      let mid := (low + high) / 2
      if bounds.getD mid 0 ≤ code then rank bounds code fuel (mid + 1) high
      else rank bounds code fuel low mid
    else low

def has (s : CodeSet) (c : Char) : Bool :=
  rank s.bounds c.toNat (s.bounds.size.log2 + 2) 0 s.bounds.size % 2 == 1

end CodeSet
end FlagEngine
