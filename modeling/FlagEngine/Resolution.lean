import FlagEngine.Decision

/-! Resolving a feature: its rules are tried in order, and the first that gives a value decides;
if none does, the default. -/
namespace FlagEngine

variable {ν : Type} [Fraction ν] {σ : Type}

namespace Rollout

/-- Without buckets the coverage decides, and without a coverage nobody is covered. -/
def covers (r : Rollout ν) (n : ν) : Bool :=
  if r.buckets.isEmpty then
    match r.coverage with
    | some c => decide (n ≤ c)
    | none => false
  else Bucket.anyHas r.buckets n

/-- The subject and its point, if the rollout covers it. -/
def covered? (r : Rollout ν) (a : Value) : Option (String × ν) :=
  match a.subject? r.hashAttribute with
  | none => none
  | some subject =>
    match Hash.point? r.seed subject r.hashVersion with
    | none => none
    | some n => if r.covers n then some (subject, n) else none

end Rollout

/-- Where an evaluation takes place: an optional store and the options. -/
structure Setting (σ : Type) where
  store : Option (Store σ)
  options : Options

namespace RuleBody

def stumbles (a : Value) : RuleBody ν → Bool
  | .force _ filters => Filter.stumble filters a
  | .rollout r =>
    Filter.stumble r.filters a || !Filter.keepsOut r.filters a && a.overlongAt r.hashAttribute
  | .experiment _ => false
  | .unknown => false

/-- What a rule that applies says, if anything. -/
def verdict? (s : Setting σ) (feature : String) (index : Nat) (a : Value) (w : World σ) :
    RuleBody ν → Except Fault (Option (Verdict ν)) × World σ
  | .force value filters =>
    (.ok (if Filter.keepsOut filters a then none else some (.force index value)), w)
  | .rollout r =>
    if Filter.keepsOut r.filters a then (.ok none, w)
    else
      match r.covered? a with
      | some (subject, n) => (.ok (some (.rollout index r.value subject n)), w)
      | none => (.ok none, w.note (.ruleSkipped feature index .rollout))
  | .experiment e =>
    match e.assign s.store s.options a w with
    | (.error f, w) => (.error f, w)
    | (.ok (.excluded _), w) => (.ok none, w)
    | (.ok (.included i), w) =>
      (.ok (if i.passthrough then none else some (.experiment index e.key i)), w)
  | .unknown => (.ok none, w.note (.ruleSkipped feature index .unknownKind))

end RuleBody

/-- A rule without its experiment asks for the text of an integer that is too long: by its
condition, by a filter, or for the subject of a rollout. -/
def Rule.stumbles (a : Value) : Rule ν → Bool
  | .invalid _ => false
  | .when condition body =>
    Experiment.stumbles condition a || Experiment.holds condition a && body.stumbles a

def Rule.verdict? (s : Setting σ) (feature : String) (index : Nat) (a : Value) (w : World σ) :
    Rule ν → Except Fault (Option (Verdict ν)) × World σ
  | .invalid _ => (.ok none, w.note (.ruleSkipped feature index .invalid))
  | .when condition body =>
    let w := w.noteAll (Experiment.tooLong condition a)
    if (Rule.when condition body).stumbles a then (.error .overlongInteger, w)
    else if Experiment.holds condition a then body.verdict? s feature index a w
    else (.ok none, w.note (.ruleSkipped feature index .condition))

namespace Feature

/-- The verdict of the rules from a position on. -/
def resolveFrom (s : Setting σ) (f : Feature ν) (a : Value) :
    Nat → List (Rule ν) → World σ → Except Fault (Verdict ν) × World σ
  | _, [], w => (.ok (.default f.default), w)
  | i, r :: rs, w =>
    match r.verdict? s f.key i a w with
    | (.error fault, w) => (.error fault, w)
    | (.ok (some v), w) => (.ok v, w)
    | (.ok none, w) => resolveFrom s f a (i + 1) rs w

def resolve (s : Setting σ) (f : Feature ν) (a : Value) (w : World σ) :
    Except Fault (Decision ν) × World σ :=
  let (v, w) := f.resolveFrom s a 0 f.rules w
  (v.map fun v => ⟨f.key,v⟩, w)

end Feature
end FlagEngine
