import FlagEngine.Bucket
import FlagEngine.Condition

/-! Features and their rules. The numbers of buckets, weights and coverages are of any type that
bucketing can work with. -/
namespace FlagEngine

/-- A subject passes a filter if its point lies in one of the buckets. -/
structure Filter (ν : Type) where
  seed : String
  buckets : List (Bucket ν)
  hashAttribute : String
  hashVersion : Int

/-- What is known of a variation besides its value. A passthrough variation assigns, but leaves the
decision to the rules that follow. -/
structure VariationInfo where
  key : Option String
  name : Option String
  passthrough : Bool

structure Experiment (ν : Type) where
  key : String
  variations : List Value
  weights : Option (List ν)
  coverage : Option ν
  buckets : List (Bucket ν)
  seed : Option String
  hashAttribute : String
  hashVersion : Int
  space : Option (Namespace ν)
  filters : List (Filter ν)
  info : List VariationInfo
  force : Option Int
  active : Bool
  condition : Option Condition
  name : Option String
  phase : Option String

/-- A value for the subjects whose point lies in a bucket, or without buckets is not above the
coverage. -/
structure Rollout (ν : Type) where
  value : Value
  seed : String
  hashAttribute : String
  hashVersion : Int
  buckets : List (Bucket ν)
  coverage : Option ν
  filters : List (Filter ν)

inductive RuleBody (ν : Type)
  | force (value : Value) (filters : List (Filter ν))
  | rollout (r : Rollout ν)
  | experiment (e : Experiment ν)
  /-- A rule of a kind that is not known here. -/
  | unknown

/-- A rule applies where its condition holds. One that could not be read never applies. -/
inductive Rule (ν : Type)
  | invalid (reason : String)
  | when (condition : Option Condition) (body : RuleBody ν)

structure Feature (ν : Type) where
  key : String
  default : Value
  rules : List (Rule ν)

end FlagEngine
