import FlagEngine.Fault
import FlagEngine.Value.Kind

/-! Why a document is no condition. -/
namespace FlagEngine

inductive ConditionError
  | tooDeep (limit : Int)
  | notAnObject (className : String)
  | badPath (key : Scalar)
  | unknownCombinator (key : String)
  | notAList (combinator : String)
  | patternNotText
  | unknownOperator (name : String)
  deriving DecidableEq

namespace ConditionError

def code : String := "INVALID_CONDITION"

def message : ConditionError → String
  | .tooDeep limit => "condition nesting exceeds max depth " ++ Number.intText limit
  | .notAnObject name => "condition must be an object, got " ++ name
  | .badPath key => "invalid attribute path: " ++ key.spelled
  | .unknownCombinator key => "unknown condition combinator: " ++ key
  | .notAList combinator => combinator ++ " expects a list"
  | .patternNotText => "$regex expects a string pattern"
  | .unknownOperator name => "unknown operator: " ++ name

def text (e : ConditionError) : String := code ++ ": " ++ e.message

end ConditionError

/-- What ends the reading of a condition: a rule it breaks, or a fault below. -/
inductive ConditionEnd
  | error (e : ConditionError)
  | fault (f : Fault)
  deriving DecidableEq

/-- A failed reading: its end, and the patterns that were refused on the way there. -/
structure ConditionFailure where
  cause : ConditionEnd
  refused : List String

namespace ConditionFailure

def ofError (e : ConditionError) : ConditionFailure := ⟨.error e,[]⟩
def ofFault (f : Fault) : ConditionFailure := ⟨.fault f,[]⟩

/-- A failure that comes after others were refused. -/
def after (f : ConditionFailure) (earlier : List String) : ConditionFailure :=
  { f with refused := earlier ++ f.refused }

end ConditionFailure
end FlagEngine
