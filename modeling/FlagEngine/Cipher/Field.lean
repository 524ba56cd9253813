/-! The field of 256 elements, its elements bytes: sums are exclusive ors, products are taken modulo
x⁸ + x⁴ + x³ + x + 1. -/
namespace FlagEngine.Cipher

def double (b : UInt8) : UInt8 := (b <<< 1) ^^^ (if b ≥ 0x80 then 0x1b else 0)

/-- The product, by doubling the first factor for each bit of the second. -/
def mulBits : Nat → UInt8 → UInt8 → UInt8
  | 0, _, _ => 0
  | n + 1, a, b => (if b &&& 1 = 1 then a else 0) ^^^ mulBits n (double a) (b >>> 1)

def mul (a b : UInt8) : UInt8 := mulBits 8 a b

def square (a : UInt8) : UInt8 := mul a a

/-- The inverse is the 254th power; zero stays zero. -/
def inverse (a : UInt8) : UInt8 :=
  let a2 := square a
  let a4 := square a2
  let a8 := square a4
  let a16 := square a8
  let a32 := square a16
  let a64 := square a32
  let a128 := square a64
  mul a2 (mul a4 (mul a8 (mul a16 (mul a32 (mul a64 a128)))))

def rotate (b : UInt8) (n : UInt8) : UInt8 := (b <<< n) ||| (b >>> (8 - n))

def substitute (b : UInt8) : UInt8 :=
  let c := inverse b
  c ^^^ rotate c 1 ^^^ rotate c 2 ^^^ rotate c 3 ^^^ rotate c 4 ^^^ 0x63

def unsubstitute (b : UInt8) : UInt8 :=
  inverse (rotate b 1 ^^^ rotate b 3 ^^^ rotate b 6 ^^^ 0x05)

end FlagEngine.Cipher
