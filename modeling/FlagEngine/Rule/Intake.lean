import FlagEngine.Condition.Evaluation
import FlagEngine.Intake.Lenient
import FlagEngine.Rule

/-! Reading rules and features as they come over the wire. A rule that cannot be read becomes an
invalid rule with a reason and disturbs nothing else; only a fault in one of its patterns ends the
reading. -/
namespace FlagEngine

namespace Intake

/-- An entry of `meta`. -/
def variationInfo : Value → Checked VariationInfo :=
  record fun es => VariationInfo.mk
    <$> field es ["key"] none (nullable string)
    <*> field es ["name"] none (nullable string)
    <*> field es ["passthrough"] false truth

def bucket : Value → Checked (Bucket Float) :=
  tuple 2 fun xs => Bucket.mk <$> slot double 0 xs <*> slot double 1 xs

def space : Value → Checked (Namespace Float) :=
  tuple 3 fun xs =>
    (fun id low high => ⟨id,⟨low,high⟩⟩)
      <$> slot string 0 xs <*> slot double 1 xs <*> slot double 2 xs

/-- A text, or what stands in its place if it is empty or missing. -/
def orElse (s : Option String) (other : String) : String :=
  match s with
  | some s => if s.isEmpty then other else s
  | none => other

/-- An entry of `filters`. -/
def filter : Value → Checked (Filter Float) :=
  record fun es =>
    (fun seed buckets version name => ⟨seed,buckets,orElse (some name) "id",version⟩)
      <$> field es ["seed"] "" string
      <*> field es ["ranges"] [] (list bucket)
      <*> field es ["hashVersion","hash_version"] 2 integer
      <*> field es ["attribute"] "id" string

/-- The fields of a rule, each read but not yet put together. -/
structure RuleFields where
  condition : Option (List (String × Value))
  force : Value
  coverage : Option Float
  range : Option (Bucket Float)
  ranges : Option (List (Bucket Float))
  variations : Option (List Value)
  weights : Option (List Float)
  key : Option String
  space : Option (Namespace Float)
  hashAttribute : Option String
  hashVersion : Option Int
  seed : Option String
  info : Option (List VariationInfo)
  filters : Option (List (Filter Float))
  name : Option String
  phase : Option String
  active : Bool

def ruleFields (es : Entries) : Checked RuleFields :=
  RuleFields.mk
    <$> field es ["condition"] none (nullable (dictionary anything))
    <*> field es ["force"] .null anything
    <*> field es ["coverage"] none (nullable double)
    <*> field es ["range"] none (nullable bucket)
    <*> field es ["ranges"] none (nullable (list bucket))
    <*> field es ["variations"] none (nullable (list anything))
    <*> field es ["weights"] none (nullable (list double))
    <*> field es ["key"] none (nullable string)
    <*> field es ["namespace"] none (nullable space)
    <*> field es ["hashAttribute","hash_attribute"] none (nullable string)
    <*> field es ["hashVersion","hash_version"] none (nullable integer)
    <*> field es ["seed"] none (nullable string)
    <*> field es ["meta"] none (nullable (list variationInfo))
    <*> field es ["filters"] none (nullable (list filter))
    <*> field es ["name"] none (nullable string)
    <*> field es ["phase"] none (nullable string)
    <*> field es ["active"] true truth

namespace RuleFields

def hashAttributeOrId (r : RuleFields) : String := orElse r.hashAttribute "id"

/-- Version zero counts as none given. -/
def hashVersionOrOne (r : RuleFields) : Int :=
  match r.hashVersion with
  | some v => if v = 0 then 1 else v
  | none => 1

def toRollout (r : RuleFields) (featureKey : String) : Rollout Float where
  value := r.force
  seed := orElse r.seed featureKey
  hashAttribute := r.hashAttributeOrId
  hashVersion := r.hashVersionOrOne
  buckets := r.range.toList
  coverage := r.coverage
  filters := r.filters.getD []

def toExperiment (r : RuleFields) (featureKey : String) (variations : List Value) :
    Experiment Float where
  key := orElse r.key featureKey
  variations := variations
  weights := r.weights
  coverage := r.coverage
  buckets := r.ranges.getD []
  seed := r.seed
  hashAttribute := r.hashAttributeOrId
  hashVersion := r.hashVersionOrOne
  space := r.space
  filters := r.filters.getD []
  info := r.info.getD []
  force := none
  active := r.active
  condition := none
  name := r.name
  phase := r.phase

/-- A value to force makes a force rule, or a rollout if a range or a coverage limits it; else
variations make an experiment. -/
def body? (r : RuleFields) (featureKey : String) : Option (RuleBody Float) :=
  match r.force, r.variations with
  | .null, some vs => some (.experiment (r.toExperiment featureKey vs))
  | .null, none => none
  | v, _ =>
    if r.range.isNone && r.coverage.isNone then some (.force v (r.filters.getD []))
    else some (.rollout (r.toRollout featureKey))

end RuleFields
end Intake

namespace Rule

def notAnObject : String := "rule must be an object"

def badFields (count : Nat) : String :=
  "invalid rule fields: " ++ toString count ++ " error(s)"

def nothingToDo : String := "rule has neither force nor variations"

/-- A condition without entries asks for nothing. -/
def readCondition (limit : Int) : Option (List (String × Value)) →
    Except ConditionFailure (Option Condition)
  | none => .ok none
  | some [] => .ok none
  | some es => (Condition.read (.obj es) limit).map some

def finish (r : Intake.RuleFields) (featureKey : String) (limit : Int) : Noted (Rule Float) :=
  match readCondition limit r.condition with
  | .error ⟨.fault f,refused⟩ => (.error f, Condition.refusals refused)
  | .error ⟨.error e,refused⟩ => (.ok (.invalid e.text), Condition.refusals refused)
  | .ok condition =>
    let notes := Condition.refusals ((condition.map Condition.refused).getD [])
    match r.body? featureKey with
    | some body => (.ok (.when condition body), notes)
    | none => (.ok (.invalid nothingToDo), notes)

def compile (v : Value) (featureKey : String) (limit : Int) : Noted (Rule Float) :=
  match v with
  | .map es =>
    match Intake.ruleFields es with
    | .bad errors => (.ok (.invalid (badFields errors.length)), [])
    | .good r => finish r featureKey limit
  | _ => (.ok (.invalid notAnObject), [])

/-- Rules in order, up to the first fault. -/
def compileAll (featureKey : String) (limit : Int) : List Value → Noted (List (Rule Float))
  | [] => (.ok [], [])
  | v :: vs =>
    match compile v featureKey limit with
    | (.error f, notes) => (.error f, notes)
    | (.ok r, notes) =>
      let (rest, more) := compileAll featureKey limit vs
      (rest.map (r :: ·), notes ++ more)

end Rule

/-- A feature as it comes over the wire: its default and its rules, not yet read. -/
structure RawFeature where
  default : Value
  rules : Option (List Value)

def Intake.rawFeature : Value → Checked RawFeature :=
  record fun es => RawFeature.mk
    <$> field es ["defaultValue","default_value"] .null anything
    <*> field es ["rules"] none (nullable (list anything))

namespace Feature

def invalidRules (key : String) : Nat → List (Rule Float) → List Event
  | _, [] => []
  | i, .invalid reason :: rs => .invalidRule key i reason :: invalidRules key (i + 1) rs
  | i, _ :: rs => invalidRules key (i + 1) rs

def compile (key : String) (raw : RawFeature) (limit : Int) : Noted (Feature Float) :=
  match Rule.compileAll key limit (raw.rules.getD []) with
  | (.error f, notes) => (.error f, notes)
  | (.ok rules, notes) => (.ok ⟨key,raw.default,rules⟩, notes ++ invalidRules key 0 rules)

end Feature
end FlagEngine
