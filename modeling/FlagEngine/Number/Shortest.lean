import FlagEngine.Number.Double

/-! The fewest decimal digits that read back as the same double, and of those the nearest.
The numbers that round to mantissa · 2 ^ exponent form an interval; on each decimal grid, from
coarse to fine, the two grid points next to the double are tried, and the first grid with a point
in the interval wins. -/
namespace FlagEngine.Shortest

/-- The numbers that round to a double, in units of 2 ^ (exponent - 2): the double itself is
`value`, the ends belong to the interval iff `closed`. -/
structure Basin where
  low : Nat
  value : Nat
  high : Nat
  closed : Bool

/-- Below a power of two the doubles lie twice as close as above it. -/
def basin (mantissa : Nat) (exponent : Int) : Basin where
  low := 4 * mantissa - (if mantissa = twoTo 52 ∧ -1074 < exponent then 1 else 2)
  value := 4 * mantissa
  high := 4 * mantissa + 2
  closed := mantissa % 2 == 0

/-- A grid of step 10 ^ `scale`: the point `c` lies at `c * step` where the basin's bounds lie
at `bound * unit`. -/
structure Grid where
  step : Nat
  unit : Nat

def grid (exponent scale : Int) : Grid where
  step := tenTo scale.toNat * twoTo (2 - exponent).toNat
  unit := tenTo (-scale).toNat * twoTo (exponent - 2).toNat

def Basin.has (b : Basin) (g : Grid) (c : Nat) : Bool :=
  let x := c * g.step
  let low := b.low * g.unit
  let high := b.high * g.unit
  (low < x || (b.closed && low == x)) && (x < high || (b.closed && x == high))

/-- The grid point in the basin that is nearest to the double; of two at one distance, the even. -/
def Basin.pick (b : Basin) (g : Grid) : Option Nat :=
  let v := b.value * g.unit
  let c := v / g.step
  match b.has g c, b.has g (c + 1) with
  | false, false => none
  | true, false => some c
  | false, true => some (c + 1)
  | true, true =>
    let below := v - c * g.step
    let above := (c + 1) * g.step - v
    if below < above || (below == above && c % 2 == 0) then some c else some (c + 1)

/-- The number of decimal digits before the point of `num / den`, not positive below one. -/
def magnitude (num den : Nat) : Int :=
  let guess : Int := ((num.log2 : Int) - den.log2) * 30103 / 100000
  let covers (k : Int) : Bool := num * tenTo (-k).toNat < den * tenTo k.toNat
  if covers (guess - 1) then guess - 1
  else if covers guess then guess
  else if covers (guess + 1) then guess + 1
  else guess + 2

def search (b : Basin) (exponent size : Int) (digits : Nat) : Nat → Nat × Int
  | 0 => (b.value, exponent)
  | fuel + 1 =>
    let scale := size - digits
    match b.pick (grid exponent scale) with
    | some c => (c, scale)
    | none => search b exponent size (digits + 1) fuel

/-- Digits `d` and scale `s` such that `d * 10 ^ s` is the shortest decimal for a positive
mantissa · 2 ^ exponent. Seventeen digits always suffice. -/
def decimal (mantissa : Nat) (exponent : Int) : Nat × Int :=
  let (num, den) := Double.fraction mantissa exponent
  search (basin mantissa exponent) exponent (magnitude num den) 1 20

end FlagEngine.Shortest
