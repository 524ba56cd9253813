import FlagEngine.Fault
import FlagEngine.Value

/-! What the engine notes down while it works: each event has a severity, a name and fields. -/
namespace FlagEngine

inductive Severity
  | debug
  | info
  | warning
  | error
  | critical
  deriving DecidableEq, Repr

namespace Severity

def name : Severity → String
  | .debug => "debug"
  | .info => "info"
  | .warning => "warning"
  | .error => "error"
  | .critical => "critical"

def weight : Severity → Nat
  | .debug => 10
  | .info => 20
  | .warning => 30
  | .error => 40
  | .critical => 50

end Severity

/-- Why an experiment takes nobody in. -/
inductive Exclusion
  | tooFewVariations
  | disabled
  | inactive
  | missingHashAttribute
  | filteredOut
  | outsideNamespace
  | condition
  | qaMode
  | invalidHashVersion (version : Int)
  | notInBucket
  deriving DecidableEq, Repr

/-- Why a rule is passed over. -/
inductive Skip
  | invalid
  | condition
  | rollout
  | unknownKind
  deriving DecidableEq, Repr

inductive Event
  | invalidRegex (pattern : String)
  | regexInputTooLong (length : Nat)
  | invalidCondition (error : String)
  | invalidRule (feature : String) (index : Nat) (reason : String)
  | experimentSkipped (experiment : String) (reason : Exclusion)
  | variationForced (experiment : String) (index : Int)
  | variationAssigned (experiment : String) (index : Nat)
  | stickyReadFailed (experiment : String)
  | stickyOutOfRange (experiment : String) (index : Int)
  | stickyWriteFailed (experiment : String)
  | ruleSkipped (feature : String) (index : Nat) (reason : Skip)
  | unknownFeature (feature : String)
  | trackingFailed (feature : Option String) (experiment : String)
  | catalogParsed (features : Nat)
  | catalogLoaded (path : String) (features : Nat)

namespace Exclusion

def text : Exclusion → String
  | .tooFewVariations => "too_few_variations"
  | .disabled => "disabled"
  | .inactive => "inactive"
  | .missingHashAttribute => "missing_hash_attribute"
  | .filteredOut => "filtered_out"
  | .outsideNamespace => "namespace"
  | .condition => "condition"
  | .qaMode => "qa_mode"
  | .invalidHashVersion _ => "invalid_hash_version"
  | .notInBucket => "not_in_bucket"

def version? : Exclusion → Option Int
  | .invalidHashVersion v => some v
  | _ => none

end Exclusion

def Skip.text : Skip → String
  | .invalid => "invalid"
  | .condition => "condition"
  | .rollout => "rollout"
  | .unknownKind => "unknown_kind"

namespace Event

def severity : Event → Severity
  | .invalidCondition _ => .warning
  | .invalidRule _ _ _ => .warning
  | .experimentSkipped _ r => if r.version?.isSome then .warning else .debug
  | .stickyReadFailed _ => .warning
  | .stickyWriteFailed _ => .warning
  | .ruleSkipped _ _ r => if r = .unknownKind then .warning else .debug
  | .trackingFailed _ _ => .warning
  | .catalogLoaded _ _ => .info
  | _ => .debug

def name : Event → String
  | .invalidRegex _ => "invalid_regex"
  | .regexInputTooLong _ => "regex_input_too_long"
  | .invalidCondition _ => "invalid_condition"
  | .invalidRule _ _ _ => "invalid_rule"
  | .experimentSkipped _ _ => "experiment_skipped"
  | .variationForced _ _ => "variation_forced"
  | .variationAssigned _ _ => "variation_assigned"
  | .stickyReadFailed _ => "sticky_bucket_read_failed"
  | .stickyOutOfRange _ _ => "sticky_bucket_out_of_range"
  | .stickyWriteFailed _ => "sticky_bucket_write_failed"
  | .ruleSkipped _ _ _ => "rule_skipped"
  | .unknownFeature _ => "unknown_feature"
  | .trackingFailed _ _ => "tracking_callback_failed"
  | .catalogParsed _ => "catalog_parsed"
  | .catalogLoaded _ _ => "catalog_loaded"

def fields : Event → List (String × Value)
  | .invalidRegex pattern => [("pattern",.str pattern)]
  | .regexInputTooLong length => [("length",.nat length)]
  | .invalidCondition error => [("error",.str error)]
  | .invalidRule feature index reason =>
    [("feature_key",.str feature),("rule_index",.nat index),("reason",.str reason)]
  | .experimentSkipped experiment reason =>
    [("experiment_key",.str experiment),("reason",.str reason.text)]
      ++ (reason.version?.map fun v => ("hash_version",Value.int v)).toList
  | .variationForced experiment index =>
    [("experiment_key",.str experiment),("variation_index",.int index)]
  | .variationAssigned experiment index =>
    [("experiment_key",.str experiment),("variation_index",.nat index)]
  | .stickyReadFailed experiment => [("experiment_key",.str experiment)]
  | .stickyOutOfRange experiment index =>
    [("experiment_key",.str experiment),("variation_index",.int index)]
  | .stickyWriteFailed experiment => [("experiment_key",.str experiment)]
  | .ruleSkipped feature index reason =>
    [("feature_key",.str feature),("rule_index",.nat index),("reason",.str reason.text)]
  | .unknownFeature feature => [("feature_key",.str feature)]
  | .trackingFailed feature experiment =>
    [("feature_key",(feature.map Value.str).getD .null),("experiment_key",.str experiment)]
  | .catalogParsed features => [("features",.nat features)]
  | .catalogLoaded path features => [("path",.str path),("features",.nat features)]

end Event

/-- The outcome of reading with what was noted on the way. -/
abbrev Noted (α : Type) := Except Fault α × List Event

end FlagEngine
