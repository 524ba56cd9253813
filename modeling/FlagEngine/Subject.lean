import FlagEngine.Fault
import FlagEngine.Number.Text
import FlagEngine.Rule
import FlagEngine.Value

/-! Subjects are known by the text of one of their attributes. Truth values, nothing, empty text
and whatever has parts do not tell subjects apart. To ask for the text of an integer that is too
long to be written is a fault. -/
namespace FlagEngine

namespace Value

def hashText? : Value → Option String
  | .str s => if s.isEmpty then none else some s
  | .int n => Number.written? n
  | .float x => some (Number.plainText x)
  | _ => none

def subject? (a : Value) (name : String) : Option String := (a.field? name).bind hashText?

def overlongAt (a : Value) (name : String) : Bool := (a.field? name).any isOverlong

/-- The subject that an attribute tells, if it can be asked for. -/
def subject (a : Value) (name : String) : Except Fault (Option String) :=
  if a.overlongAt name then .error .overlongInteger else .ok (a.subject? name)

end Value

namespace Filter

variable {ν : Type} [Fraction ν]

def admits (f : Filter ν) (a : Value) : Bool :=
  match a.subject? f.hashAttribute with
  | some subject =>
    match Hash.point? f.seed subject f.hashVersion with
    | some n => Bucket.anyHas f.buckets n
    | none => false
  | none => false

/-- Some filter keeps the subject out. -/
def keepsOut (fs : List (Filter ν)) (a : Value) : Bool := fs.any (!·.admits a)

/-- One of the filters asks for the text of an integer that is too long. The first filter that
keeps the subject out is the last to be asked. -/
def stumble : List (Filter ν) → Value → Bool
  | [], _ => false
  | f :: fs, a => a.overlongAt f.hashAttribute || f.admits a && stumble fs a

def test (fs : List (Filter ν)) (a : Value) : Except Fault Bool :=
  if stumble fs a then .error .overlongInteger else .ok (keepsOut fs a)

@[simp] theorem keepsOut_nil (a : Value) : keepsOut ([] : List (Filter ν)) a = false := rfl

end Filter
end FlagEngine
