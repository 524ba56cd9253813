import FlagEngine.Condition.Error
import FlagEngine.Condition.Match
import FlagEngine.Pattern.Reader

/-! Reading a condition document. Nesting is bounded: every step into the document uses up one
level of what is left, so that the bound carries the recursion. Patterns that are malformed are no
error; they stay in the tree as patterns that match nothing. -/
namespace FlagEngine

mutual
def ValueTest.refused : ValueTest → List String
  | .literal _ => []
  | .operators os => Operator.allRefused os
def Operator.allRefused : List Operator → List String
  | [] => []
  | o :: os => o.refused ++ Operator.allRefused os
/-- The malformed patterns of a tree, in the order of the document. -/
def Operator.refused : Operator → List String
  | .pattern text none => [text]
  | .not t => t.refused
  | .size t => t.refused
  | .every (some ts) => ValueTest.allRefused ts
  | .someValue t => t.refused
  | .someItem c => c.refused
  | _ => []
def ValueTest.allRefused : List ValueTest → List String
  | [] => []
  | t :: ts => t.refused ++ ValueTest.allRefused ts
def Condition.refused : Condition → List String
  | .allOf cs => Condition.allRefused cs
  | .anyOf cs => Condition.allRefused cs
  | .not c => c.refused
  | .field _ _ t => t.refused
def Condition.allRefused : List Condition → List String
  | [] => []
  | c :: cs => c.refused ++ Condition.allRefused cs
end

namespace Condition

/-- Reads the members of a list or mapping in order; the first failure ends it. -/
def collect {α β : Type} (f : α → Except ConditionFailure β) (refused : β → List String) :
    List α → Except ConditionFailure (List β)
  | [] => .ok []
  | x :: xs =>
    match f x with
    | .error e => .error e
    | .ok y =>
      match collect f refused xs with
      | .error e => .error (e.after (refused y))
      | .ok ys => .ok (y :: ys)

def reject {α : Type} (e : ConditionError) : Except ConditionFailure α := .error (.ofError e)

/-- The message names the limit, if that can be written. -/
def rejectDepth {α : Type} (limit : Int) : Except ConditionFailure α :=
  if Number.isOverlong limit then .error (.ofFault .overlongInteger) else reject (.tooDeep limit)

/-- The message spells the key, if that can be written. -/
def rejectPath {α : Type} (key : Scalar) : Except ConditionFailure α :=
  if (Value.scalar key).isOverlong then .error (.ofFault .overlongInteger) else reject (.badPath key)

@[simp] theorem rejectDepth_ne_ok {α : Type} (limit : Int) (x : α) : rejectDepth limit ≠ .ok x := by
  unfold rejectDepth
  split <;> exact nofun

@[simp] theorem rejectPath_ne_ok {α : Type} (key : Scalar) (x : α) : rejectPath key ≠ .ok x := by
  unfold rejectPath
  split <;> exact nofun

def isOperatorName (s : String) : Bool := s.toList.head? == some '$'

def isOperatorKey : Scalar → Bool
  | .str s => isOperatorName s
  | _ => false

/-- A mapping all of whose keys name operators; the empty one too. -/
def isOperators : Value → Bool
  | .map es => es.all fun e => isOperatorKey e.1
  | _ => false

/-- Cuts a path at its dots. -/
def segments : List Char → List Char × List (List Char)
  | [] => ([], [])
  | c :: cs =>
    let (s, ss) := segments cs
    if c = '.' then ([], s :: ss) else (c :: s, ss)

def orderTest? : String → Option OrderTest
  | "$lt" => some .less
  | "$lte" => some .atMost
  | "$gt" => some .more
  | "$gte" => some .atLeast
  | _ => none

def versionRelation? : String → Option VersionRelation
  | "$veq" => some .same
  | "$vne" => some .differs
  | "$vgt" => some .above
  | "$vgte" => some .atLeast
  | "$vlt" => some .below
  | "$vlte" => some .atMost
  | _ => none

def items? : Value → Option (List Value)
  | .list xs => some xs
  | _ => none

def readPattern (text : String) : Except ConditionFailure Operator :=
  match Pattern.read text with
  | .ok node => .ok (.pattern text (some node))
  | .error .malformed => .ok (.pattern text none)
  | .error .tooManyTimes => .error (.ofFault .repetitionTooLarge)
  | .error .contradictory => .error (.ofFault .contradictoryOptions)
  | .error .overlong => .error (.ofFault .overlongInteger)

/-- An integer that is too long to be written cannot be read as a version. -/
def readVersion (r : VersionRelation) (v : Value) : Except ConditionFailure Operator :=
  if v.isOverlong then .error (.ofFault .overlongInteger) else .ok (.version r v.version?)

/-- Operators whose argument is no test. -/
def readPlain (name : String) (v : Value) : Except ConditionFailure Operator :=
  match name with
  | "$eq" => .ok (.equal false v)
  | "$ne" => .ok (.equal true v)
  | "$in" => .ok (.among false (items? v))
  | "$nin" => .ok (.among true (items? v))
  | "$regex" =>
    match v with
    | .str text => readPattern text
    | _ => reject .patternNotText
  | "$exists" => .ok (.present v.truthy)
  | "$type" => .ok (.kind v)
  | name =>
    match orderTest? name with
    | some o => .ok (.order o v)
    | none =>
      match versionRelation? name with
      | some r => readVersion r v
      | none => reject (.unknownOperator name)

/-- The argument of a combinator. -/
def readList (f : Value → Except ConditionFailure Condition) (combinator : String) (v : Value) :
    Except ConditionFailure (List Condition) :=
  match v with
  | .list xs => collect f Condition.refused xs
  | _ => reject (.notAList combinator)

def readField (f : Value → Except ConditionFailure ValueTest) (e : Scalar × Value) :
    Except ConditionFailure Condition :=
  match e.1 with
  | .str name =>
    if name.isEmpty then reject (.badPath e.1)
    else if isOperatorName name then reject (.unknownCombinator name)
    else
      let (s, ss) := segments name.toList
      (f e.2).map (.field (String.ofList s) (ss.map String.ofList))
  | key => rejectPath key

mutual
def readTest (limit : Int) : Nat → Value → Except ConditionFailure ValueTest
  | 0, _ => rejectDepth limit
  | room + 1, v =>
    match v with
    | .map es =>
      if isOperators v then
        (collect (readEntry limit room) Operator.refused es).map .operators
      else .ok (.literal v)
    | v => .ok (.literal v)
def readEntry (limit : Int) : Nat → Scalar × Value → Except ConditionFailure Operator
  | 0, _ => rejectDepth limit
  | room + 1, (key, v) =>
    match key with
    | .str "$not" => (readTest limit room v).map .not
    | .str "$size" => (readTest limit room v).map .size
    | .str "$all" =>
      match v with
      | .list xs => (collect (readTest limit room) ValueTest.refused xs).map (.every ∘ some)
      | _ => .ok (.every none)
    | .str "$elemMatch" =>
      if isOperators v then (readTest limit room v).map .someValue
      else (readDocument limit room v).map .someItem
    | .str name => readPlain name v
    | key => reject (.badPath key)
def readDocument (limit : Int) : Nat → Value → Except ConditionFailure Condition
  | 0, _ => rejectDepth limit
  | room + 1, v =>
    match v with
    | .map es =>
      match Entries.find? es (.str "$or") with
      | some v => (readList (readDocument limit room) "$or" v).map .anyOf
      | none =>
        match Entries.find? es (.str "$nor") with
        | some v => (readList (readDocument limit room) "$nor" v).map (.not ∘ .anyOf)
        | none =>
          match Entries.find? es (.str "$and") with
          | some v => (readList (readDocument limit room) "$and" v).map .allOf
          | none =>
            match Entries.find? es (.str "$not") with
            | some v => (readDocument limit room v).map .not
            | none => (collect (readField (readTest limit room)) Condition.refused es).map .allOf
    | v => reject (.notAnObject v.className)
end

/-- Nesting levels a condition may have unless its owner says otherwise. -/
def defaultDepth : Int := 64

def read (v : Value) (limit : Int) : Except ConditionFailure Condition :=
  readDocument limit (limit + 1).toNat v

end Condition
end FlagEngine
