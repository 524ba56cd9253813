import FlagEngine.Number.Double

/-! Decimal literals: digits before and after the point, and an exponent. Their value is the
nearest double. -/
namespace FlagEngine

structure Literal where
  neg : Bool
  whole : List Char
  fraction : List Char
  exponent : Int

namespace Literal

def natOf (ds : List Char) : Nat := ds.foldl (fun n d => 10 * n + (d.toNat - 48)) 0

def toFloat (l : Literal) : Float :=
  Number.ofDecimal l.neg (natOf (l.whole ++ l.fraction)) (l.exponent - l.fraction.length)

/-- The longest run of ASCII digits, and what follows. -/
def spanDigits (cs : List Char) : List Char × List Char := cs.span Char.isDigit

/-- A sign and digits after an exponent mark; without digits there is no exponent. -/
def exponent? (cs : List Char) : Option (Int × List Char) :=
  let (neg, rest) :=
    match cs with
    | '-' :: r => (true, r)
    | '+' :: r => (false, r)
    | r => (false, r)
  match spanDigits rest with
  | ([], _) => none
  | (ds, r) => some (if neg then -(natOf ds : Int) else natOf ds, r)

end Literal

namespace Number

/-- Integers of more digits are refused wherever text is read as an integer. -/
def maxDigits : Nat := 4300

end Number
end FlagEngine
