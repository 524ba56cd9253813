import FlagEngine.Assignment
import FlagEngine.Value.Kind

/-! The outcome of evaluating a feature: a verdict that says which rule gave the value and how. The
single columns of a decision are read off the verdict. -/
namespace FlagEngine

inductive DecisionKind
  | unknownFeature
  | defaultValue
  | force
  | rollout
  | experiment
  | forcedVariation
  deriving DecidableEq, Repr

def DecisionKind.text : DecisionKind → String
  | .unknownFeature => "unknownFeature"
  | .defaultValue => "defaultValue"
  | .force => "force"
  | .rollout => "rollout"
  | .experiment => "experiment"
  | .forcedVariation => "forcedVariation"

inductive Verdict (ν : Type)
  | unknownFeature
  | default (value : Value)
  | force (rule : Nat) (value : Value)
  | rollout (rule : Nat) (value : Value) (subject : String) (point : ν)
  | experiment (rule : Nat) (key : String) (i : Inclusion ν)

structure Decision (ν : Type) where
  feature : String
  verdict : Verdict ν

/-- An assignment by force from outside or by the experiment is of another kind than one by the
store or by the point. -/
def Origin.kind {ν : Type} (o : Origin ν) : DecisionKind :=
  if o.isForced then .forcedVariation else .experiment

namespace Decision

variable {ν : Type}

def kind (d : Decision ν) : DecisionKind :=
  match d.verdict with
  | .unknownFeature => .unknownFeature
  | .default _ => .defaultValue
  | .force _ _ => .force
  | .rollout _ _ _ _ => .rollout
  | .experiment _ _ i => i.origin.kind

def value (d : Decision ν) : Value :=
  match d.verdict with
  | .unknownFeature => .null
  | .default v => v
  | .force _ v => v
  | .rollout _ v _ _ => v
  | .experiment _ _ i => i.value

def ruleIndex? (d : Decision ν) : Option Nat :=
  match d.verdict with
  | .force r _ => some r
  | .rollout r _ _ _ => some r
  | .experiment r _ _ => some r
  | _ => none

def inclusion? (d : Decision ν) : Option (String × Inclusion ν) :=
  match d.verdict with
  | .experiment _ key i => some (key, i)
  | _ => none

def experimentKey? (d : Decision ν) : Option String := d.inclusion?.map (·.1)

def variationIndex? (d : Decision ν) : Option Nat := d.inclusion?.map (·.2.index)

def subject? (d : Decision ν) : Option String :=
  match d.verdict with
  | .rollout _ _ s _ => some s
  | .experiment _ _ i => i.origin.subject?
  | _ => none

def point? (d : Decision ν) : Option ν :=
  match d.verdict with
  | .rollout _ _ _ n => some n
  | .experiment _ _ i => i.origin.point?
  | _ => none

def isSticky (d : Decision ν) : Bool := (d.inclusion?.map (·.2.origin.isSticky)).getD false

def isFound (d : Decision ν) : Bool := d.kind != .unknownFeature

def isOn (d : Decision ν) : Bool := d.value.isOn

def isOff (d : Decision ν) : Bool := !d.isOn

/-- The exposure that a decision makes. Only experiments expose, and not by force. -/
def exposure? (d : Decision ν) : Option Exposure :=
  match d.verdict with
  | .experiment _ key i =>
    i.origin.exposed?.map fun s => ⟨some d.feature,key,i.index,s⟩
  | _ => none

end Decision

namespace Assignment

variable {ν : Type}

/-- The exposure of an experiment that was run for no feature. -/
def exposure? (x : Assignment ν) (experiment : String) : Option Exposure :=
  match x with
  | .excluded _ => none
  | .included i => i.origin.exposed?.map fun s => ⟨none,experiment,i.index,s⟩

end Assignment
end FlagEngine
