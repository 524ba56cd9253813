import FlagEngine.Value

/-! Equality and order of values. A truth value equals only a truth value; numbers are compared
exactly, whichever way they are held; mappings are equal when they hold equal values under the
same keys, in any order. Inside pairs truth values count as numbers, as they do among keys. Only two
numbers, or two texts, are ordered. -/
namespace FlagEngine

namespace Scalar

def isBool : Scalar → Bool
  | .bool _ => true
  | _ => false

def alike (a b : Scalar) : Bool := a.isBool == b.isBool && a.same b

end Scalar

namespace Value

mutual
/-- Equality, which is `strict` where a truth value is no number. -/
def sameAs : (strict : Bool) → Value → Value → Bool
  | strict, .scalar a, .scalar b => if strict then a.alike b else a.same b
  | strict, .list xs, .list ys => sameItems strict xs ys
  | _, .pair a b, .pair c d => sameAs false a c && sameAs false b d
  | _, .set xs, .set ys => xs.length == ys.length && xs.all fun x => ys.any x.sameKey
  | strict, .map xs, .map ys => xs.length == ys.length && sameEntries strict xs ys
  | _, _, _ => false
def sameItems : Bool → List Value → List Value → Bool
  | _, [], [] => true
  | strict, x :: xs, y :: ys => sameAs strict x y && sameItems strict xs ys
  | _, _, _ => false
def sameEntries : Bool → List (Scalar × Value) → List (Scalar × Value) → Bool
  | _, [], _ => true
  | strict, (k, x) :: xs, ys =>
    (match Entries.find? ys k with
      | some y => sameAs strict x y
      | none => false) && sameEntries strict xs ys
end

def same (v w : Value) : Bool := sameAs true v w

/-- A number's place; a truth value is no number. -/
def number? : Value → Option Extended
  | .int n => some (.ofInt n)
  | .float x => some (.ofFloat x)
  | _ => none

def textLess (s t : String) : Bool := decide (s < t)

/-- The part of the order that both operands share: strictly less, and equal. -/
structure Comparison where
  less : Bool
  same : Bool
  greater : Bool

/-- Compares two numbers or two texts, by code points; nothing else. -/
def compare? : Value → Value → Option Comparison
  | .str s, .str t => some ⟨textLess s t,s == t,textLess t s⟩
  | v, w =>
    match v.number?, w.number? with
    | some p, some q => some ⟨p.less q,p.same q,q.less p⟩
    | _, _ => none

def moreThan (v w : Value) : Bool := ((compare? v w).map (·.greater)).getD false
def lessThan (v w : Value) : Bool := ((compare? v w).map (·.less)).getD false
def atMost (v w : Value) : Bool := ((compare? v w).map fun c => c.less || c.same).getD false
def atLeast (v w : Value) : Bool := ((compare? v w).map fun c => c.greater || c.same).getD false

end Value
end FlagEngine
