/-! What bucketing asks of its numbers: quotients of natural numbers, sums, products and an order.
Doubles run; rationals are exact. -/
namespace FlagEngine

class Fraction (ν : Type) extends Add ν, Mul ν, LT ν, LE ν where
  ofRatio : Nat → Nat → ν
  decideLt : DecidableLT ν
  decideLe : DecidableLE ν

namespace Fraction

attribute [reducible, instance] decideLt decideLe

variable {ν : Type} [Fraction ν]

def zero : ν := ofRatio 0 1
def one : ν := ofRatio 1 1

/-- Brings a number into the unit interval; what compares with nothing is left alone. -/
def clamp (x : ν) : ν :=
  let low := if x < (zero : ν) then zero else x
  if (one : ν) < low then one else low

def sum (xs : List ν) : ν := xs.foldl (· + ·) zero

end Fraction

instance : Fraction Float where
  ofRatio a b := Float.ofNat a / Float.ofNat b
  decideLt := inferInstance
  decideLe := inferInstance

instance : Fraction Rat where
  ofRatio a b := mkRat a b
  decideLt := inferInstance
  decideLe := inferInstance

end FlagEngine
