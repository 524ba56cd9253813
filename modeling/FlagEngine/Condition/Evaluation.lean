import FlagEngine.Condition.Reader
import FlagEngine.Event

/-! Reading a document as a condition and testing it at once. -/
namespace FlagEngine.Condition

def refusals (patterns : List String) : List Event := patterns.map .invalidRegex

/-- What is noted when a condition is tested. -/
def testNotes (c : Condition) (a : Value) : List Event := (c.unsearched a).map .regexInputTooLong

/-- A document that is no condition holds of nothing. One that is may stumble over attributes. -/
def evaluate (document : Value) (limit : Int) (a : Value) : Noted Bool :=
  match read document limit with
  | .error ⟨.fault f,refused⟩ => (.error f, refusals refused)
  | .error ⟨.error e,refused⟩ => (.ok false, refusals refused ++ [.invalidCondition e.text])
  | .ok c => (c.test a, refusals c.refused ++ c.testNotes a)

end FlagEngine.Condition
