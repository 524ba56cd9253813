/-! Doubles as exact numbers: not a number, an infinity, or ± mantissa · 2 ^ exponent.
`Double.ofBits` reads the parts off a bit pattern, `Double.nearest` goes back from a quotient of
natural numbers to the closest double. -/
namespace FlagEngine

inductive Double
  | nan
  | infinite (neg : Bool)
  | finite (neg : Bool) (mantissa : Nat) (exponent : Int)
  deriving DecidableEq, Repr

def twoTo (n : Nat) : Nat := Nat.pow 2 n

def tenTo (n : Nat) : Nat := Nat.pow 10 n

namespace Double

def ofBits (b : UInt64) : Double :=
  let neg := b >>> 63 == 1
  let e := ((b >>> 52) &&& 0x7ff).toNat
  let m := (b &&& 0xfffffffffffff).toNat
  if e = 0x7ff then
    if m = 0 then .infinite neg else .nan
  else if e = 0 then .finite neg m (-1074)
  else .finite neg (m + twoTo 52) ((e : Int) - 1075)

def ofFloat (x : Float) : Double := ofBits x.toBits

/-- A finite double times a power of two, as numerator and denominator of its absolute value. -/
def fraction (mantissa : Nat) (exponent : Int) : Nat × Nat :=
  (mantissa * twoTo exponent.toNat, twoTo (-exponent).toNat)

/-- Rounds `num / den` to an integer, a half going to the even neighbour. -/
def roundHalfEven (num den : Nat) : Nat :=
  let q := num / den
  let r := num % den
  if 2 * r > den || (2 * r == den && q % 2 == 1) then q + 1 else q

/-- The exponent that gives `num / den` a mantissa of 53 bits, but not below that of the
subnormal numbers. -/
def quotientExponent (num den : Nat) : Int :=
  let e := (num.log2 : Int) - den.log2 - 53
  let q := num * twoTo (-e).toNat / (den * twoTo e.toNat)
  max (if twoTo 53 ≤ q then e + 1 else e) (-1074)

/-- Magnitude bits of the double nearest to `num / den`, for `den ≠ 0`. A mantissa that rounds
up to 2 ^ 53 carries into the exponent field, and one that is too large saturates at infinity. -/
def nearestBits (num den : Nat) : Nat :=
  if num = 0 then 0
  else
    let e := quotientExponent num den
    let m := roundHalfEven (num * twoTo (-e).toNat) (den * twoTo e.toNat)
    min ((e + 1074).toNat * twoTo 52 + m) (0x7ff * twoTo 52)

def signBit (neg : Bool) : UInt64 := if neg then 0x8000000000000000 else 0

end Double

namespace Number

/-- The double nearest to ± `num / den`. -/
def nearest (neg : Bool) (num den : Nat) : Float :=
  Float.ofBits (UInt64.ofNat (Double.nearestBits num den) ||| Double.signBit neg)

def ofInt (n : Int) : Float := nearest (n < 0) n.natAbs 1

/-- The double nearest to ± `digits` · 10 ^ `exponent`. Exponents far outside the range of a
double are settled without computing the power. -/
def ofDecimal (neg : Bool) (digits : Nat) (exponent : Int) : Float :=
  let size : Int := (digits.log2 : Int) / 3 + 1
  if digits = 0 || exponent + size < -400 then nearest neg 0 1
  else if exponent > 400 then Float.ofBits (0x7ff0000000000000 ||| Double.signBit neg)
  else nearest neg (digits * tenTo exponent.toNat) (tenTo (-exponent).toNat)

def infinity (neg : Bool) : Float := Float.ofBits (0x7ff0000000000000 ||| Double.signBit neg)

def notANumber : Float := Float.ofBits 0x7ff8000000000000

end Number
end FlagEngine
