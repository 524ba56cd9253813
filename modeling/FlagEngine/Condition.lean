import FlagEngine.Pattern.Node
import FlagEngine.Value

/-! Conditions on attributes. A condition is a tree of combinators over tests of single fields; a
test is a literal, or operators that must all hold. A field is named by a path of one or more
segments. -/
namespace FlagEngine

inductive OrderTest
  | less
  | atMost
  | more
  | atLeast
  deriving DecidableEq, Repr

inductive VersionRelation
  | same
  | differs
  | above
  | atLeast
  | below
  | atMost
  deriving DecidableEq, Repr

mutual
inductive ValueTest
  | literal (v : Value)
  | operators (os : List Operator)
/-- Arguments of the wrong shape are kept as none: they match nothing. -/
inductive Operator
  | equal (neg : Bool) (v : Value)
  | order (o : OrderTest) (v : Value)
  | among (neg : Bool) (vs : Option (List Value))
  | pattern (text : String) (node : Option PatternNode)
  | present (wanted : Bool)
  | kind (v : Value)
  | not (t : ValueTest)
  | size (t : ValueTest)
  | every (ts : Option (List ValueTest))
  | someValue (t : ValueTest)
  | someItem (c : Condition)
  | version (r : VersionRelation) (operand : Option String)
inductive Condition
  | allOf (cs : List Condition)
  /-- Without alternatives nothing is asked. -/
  | anyOf (cs : List Condition)
  | not (c : Condition)
  | field (name : String) (path : List String) (t : ValueTest)
end

def OrderTest.name : OrderTest → String
  | .less => "$lt"
  | .atMost => "$lte"
  | .more => "$gt"
  | .atLeast => "$gte"

def VersionRelation.name : VersionRelation → String
  | .same => "$veq"
  | .differs => "$vne"
  | .above => "$vgt"
  | .atLeast => "$vgte"
  | .below => "$vlt"
  | .atMost => "$vlte"

/-- The name by which documents call for an operator. -/
def Operator.name : Operator → String
  | .equal neg _ => if neg then "$ne" else "$eq"
  | .order o _ => o.name
  | .among neg _ => if neg then "$nin" else "$in"
  | .pattern _ _ => "$regex"
  | .present _ => "$exists"
  | .kind _ => "$type"
  | .not _ => "$not"
  | .size _ => "$size"
  | .every _ => "$all"
  | .someValue _ => "$elemMatch"
  | .someItem _ => "$elemMatch"
  | .version r _ => r.name

end FlagEngine
