import FlagEngine.Condition
import FlagEngine.Fault
import FlagEngine.Pattern.Match
import FlagEngine.Value.Kind
import FlagEngine.Value.Order
import FlagEngine.Version

/-! Whether a condition holds of attributes. Nothing but a test for absence holds of a field that
is not there. A test that asks for the text of an integer which is too long to be written stumbles
over it: from there on nothing is tested, and the condition has no answer. -/
namespace FlagEngine

/-- Longer texts are not searched. -/
def maxSearched : Nat := 1024

namespace Value

/-- A value as a text to be searched. -/
def searchText? : Value → Option String
  | .str s => some s
  | .bool b => some (if b then "true" else "false")
  | .int n => Number.written? n
  | .float x => some (Number.plainText x)
  | _ => none

/-- A value as a version. -/
def version? : Value → Option String
  | .str s => some (Version.padded s)
  | .int n => (Number.written? n).map Version.padded
  | .float x => some (Version.padded (Number.floatText x))
  | _ => none

/-- A list is among the candidates if one of its items is. -/
def isAmong (candidates : List Value) : Value → Bool
  | .list xs => xs.any fun x => candidates.any x.same
  | v => candidates.any v.same

end Value

def OrderTest.holds (v w : Value) : OrderTest → Bool
  | .less => v.lessThan w
  | .atMost => v.atMost w
  | .more => v.moreThan w
  | .atLeast => v.atLeast w

def VersionRelation.holds (s t : String) : VersionRelation → Bool
  | .same => s == t
  | .differs => s != t
  | .above => decide (t < s)
  | .atLeast => !decide (s < t)
  | .below => decide (s < t)
  | .atMost => !decide (t < s)

def PatternNode.occursInText (node : PatternNode) (s : String) : Bool :=
  s.length ≤ maxSearched && node.occursIn s.toList.toArray

mutual
def ValueTest.holds : ValueTest → Option Value → Bool
  | .literal w, v? => v?.any (·.same w)
  | .operators os, v? => Operator.allHold os v?
def Operator.allHold : List Operator → Option Value → Bool
  | [], _ => true
  | o :: os, v? => o.holds v? && Operator.allHold os v?
def Operator.holds : Operator → Option Value → Bool
  | .present wanted, v? => v?.isSome == wanted
  | _, none => false
  | .equal neg w, some v => v.same w != neg
  | .order o w, some v => o.holds v w
  | .among _ none, some _ => false
  | .among neg (some ws), some v => v.isAmong ws != neg
  | .pattern _ none, some _ => false
  | .pattern _ (some node), some v => v.searchText?.any node.occursInText
  | .kind w, some v => (Value.str v.typeName).same w
  | .not t, some v => !t.holds (some v)
  | .size t, some (.list xs) => t.holds (some (.nat xs.length))
  | .every (some ts), some (.list xs) => ValueTest.allMet ts xs
  | .someValue t, some (.list xs) => xs.any fun x => t.holds (some x)
  | .someItem c, some (.list xs) => xs.any fun x => c.holds x
  | .version r (some t), some v => v.version?.any fun s => r.holds s t
  | _, some _ => false
/-- Every test is met by some item. -/
def ValueTest.allMet : List ValueTest → List Value → Bool
  | [], _ => true
  | t :: ts, xs => (xs.any fun x => t.holds (some x)) && ValueTest.allMet ts xs
def Condition.holds : Condition → Value → Bool
  | .allOf cs, a => Condition.allHold cs a
  | .anyOf cs, a => cs.isEmpty || Condition.anyHolds cs a
  | .not c, a => !c.holds a
  | .field name path t, a => t.holds (a.lookup (name :: path))
def Condition.allHold : List Condition → Value → Bool
  | [], _ => true
  | c :: cs, a => c.holds a && Condition.allHold cs a
def Condition.anyHolds : List Condition → Value → Bool
  | [], _ => false
  | c :: cs, a => c.holds a || Condition.anyHolds cs a
end

/-- Some item is met by `f`, of those up to the first that settles it. -/
def anyUntil {α : Type} (settles f : α → Bool) : List α → Bool
  | [] => false
  | x :: xs => f x || !settles x && anyUntil settles f xs

/-! Whether a test stumbles. It goes through its parts in order, and stops where its answer is
settled. -/
mutual
def ValueTest.stumbles : ValueTest → Option Value → Bool
  | .literal _, _ => false
  | .operators os, v? => Operator.allStumble os v?
def Operator.allStumble : List Operator → Option Value → Bool
  | [], _ => false
  | o :: os, v? => o.stumbles v? || o.holds v? && Operator.allStumble os v?
def Operator.stumbles : Operator → Option Value → Bool
  | _, none => false
  | .pattern _ _, some v => v.isOverlong
  | .version _ _, some v => v.isOverlong
  | .not t, some v => t.stumbles (some v)
  | .size t, some (.list xs) => t.stumbles (some (.nat xs.length))
  | .every (some ts), some (.list xs) => ValueTest.allStumble ts xs
  | .someValue t, some (.list xs) =>
    anyUntil (fun x => t.holds (some x)) (fun x => t.stumbles (some x)) xs
  | .someItem c, some (.list xs) => anyUntil c.holds c.stumbles xs
  | _, some _ => false
def ValueTest.allStumble : List ValueTest → List Value → Bool
  | [], _ => false
  | t :: ts, xs =>
    anyUntil (fun x => t.holds (some x)) (fun x => t.stumbles (some x)) xs
      || (xs.any fun x => t.holds (some x)) && ValueTest.allStumble ts xs
def Condition.stumbles : Condition → Value → Bool
  | .allOf cs, a => Condition.allStumble cs a
  | .anyOf cs, a => Condition.anyStumbles cs a
  | .not c, a => c.stumbles a
  | .field name path t, a => t.stumbles (a.lookup (name :: path))
def Condition.allStumble : List Condition → Value → Bool
  | [], _ => false
  | c :: cs, a => c.stumbles a || c.holds a && Condition.allStumble cs a
def Condition.anyStumbles : List Condition → Value → Bool
  | [], _ => false
  | c :: cs, a => c.stumbles a || !c.holds a && Condition.anyStumbles cs a
end

/-- The answer of a condition, if it comes to one. -/
def Condition.test (c : Condition) (a : Value) : Except Fault Bool :=
  if c.stumbles a then .error .overlongInteger else .ok (c.holds a)

/-- The lengths of what `f` meets in a list, up to the first item that settles it. -/
def metUntil {α : Type} (settles : α → Bool) (f : α → List Nat) : List α → List Nat
  | [] => []
  | x :: xs => f x ++ if settles x then [] else metUntil settles f xs

/-! The lengths of the texts that were too long to be searched, in the order in which a test comes
upon them. A test stops as soon as its answer is settled, and where it stumbles. -/
mutual
def ValueTest.unsearched : ValueTest → Option Value → List Nat
  | .literal _, _ => []
  | .operators os, v? => Operator.allUnsearched os v?
def Operator.allUnsearched : List Operator → Option Value → List Nat
  | [], _ => []
  | o :: os, v? =>
    o.unsearched v? ++ if o.holds v? && !o.stumbles v? then Operator.allUnsearched os v? else []
def Operator.unsearched : Operator → Option Value → List Nat
  | _, none => []
  | .pattern _ (some _), some v =>
    match v.searchText? with
    | some s => if s.length ≤ maxSearched then [] else [s.length]
    | none => []
  | .not t, some v => t.unsearched (some v)
  | .size t, some (.list xs) => t.unsearched (some (.nat xs.length))
  | .every (some ts), some (.list xs) => ValueTest.allUnsearched ts xs
  | .someValue t, some (.list xs) =>
    metUntil (fun x => t.holds (some x) || t.stumbles (some x)) (fun x => t.unsearched (some x)) xs
  | .someItem c, some (.list xs) =>
    metUntil (fun x => c.holds x || c.stumbles x) c.unsearched xs
  | _, some _ => []
def ValueTest.allUnsearched : List ValueTest → List Value → List Nat
  | [], _ => []
  | t :: ts, xs =>
    metUntil (fun x => t.holds (some x) || t.stumbles (some x)) (fun x => t.unsearched (some x)) xs
      ++ if (xs.any fun x => t.holds (some x))
          && !anyUntil (fun x => t.holds (some x)) (fun x => t.stumbles (some x)) xs
        then ValueTest.allUnsearched ts xs else []
def Condition.unsearched : Condition → Value → List Nat
  | .allOf cs, a => Condition.allUnsearched cs a
  | .anyOf cs, a => Condition.anyUnsearched cs a
  | .not c, a => c.unsearched a
  | .field name path t, a => t.unsearched (a.lookup (name :: path))
def Condition.allUnsearched : List Condition → Value → List Nat
  | [], _ => []
  | c :: cs, a =>
    c.unsearched a ++ if c.holds a && !c.stumbles a then Condition.allUnsearched cs a else []
def Condition.anyUnsearched : List Condition → Value → List Nat
  | [], _ => []
  | c :: cs, a =>
    c.unsearched a ++ if c.holds a || c.stumbles a then [] else Condition.anyUnsearched cs a
end

end FlagEngine
